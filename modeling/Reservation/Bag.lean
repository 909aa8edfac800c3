import Reservation.Machine
import Mathlib.Algebra.Group.Nat.Defs
import Mathlib.Data.List.Nodup
import Mathlib.Data.List.Perm.Basic

/-! The bag of observers and disposables: one inline entry, then an array of at
most thirty, then a dictionary. -/

namespace Rx

variable {κ α : Type*}

section

variable [DecidableEq κ]

/-- The entries of other keys. -/
def without (key : κ) (entries : List (κ × α)) : List (κ × α) :=
  entries.filter fun entry => entry.1 ≠ key

theorem without_append (key : κ) (entries entries' : List (κ × α)) :
    without key (entries ++ entries') = without key entries ++ without key entries' := List.filter_append ..

theorem without_cons_self (key : κ) (value : α) (entries : List (κ × α)) :
    without key ((key, value) :: entries) = without key entries := by
  simp [without]

theorem without_cons_of_ne {key key' : κ} (h : key' ≠ key) (value : α) (entries : List (κ × α)) :
    without key ((key', value) :: entries) = (key', value) :: without key entries := by
  simp [without, h]

theorem without_of_not_mem {key : κ} {entries : List (κ × α)} (h : key ∉ entries.map Prod.fst) :
    without key entries = entries := by
  rw [without, List.filter_eq_self]
  intro entry hentry
  exact decide_eq_true fun hkey => h (hkey ▸ List.mem_map_of_mem hentry)

theorem lookup_of_not_mem {key : κ} {entries : List (κ × α)} (h : key ∉ entries.map Prod.fst) :
    entries.lookup key = none := by
  rw [List.lookup_eq_none_iff]
  intro entry hentry
  exact bne_iff_ne.mpr fun hkey => h (hkey ▸ List.mem_map_of_mem hentry)

theorem not_mem_of_lookup {key : κ} {entries : List (κ × α)} (h : entries.lookup key = none) :
    key ∉ entries.map Prod.fst := by
  rw [List.lookup_eq_none_iff] at h
  intro hmem
  obtain ⟨entry, hentry, hkey⟩ := List.mem_map.mp hmem
  exact bne_iff_ne.mp (h entry hentry) hkey.symm

theorem lookup_of_mem {key : κ} {value : α} {entries : List (κ × α)} (hkeys : (entries.map Prod.fst).Nodup)
    (h : (key, value) ∈ entries) : entries.lookup key = some value := by
  induction entries with
  | nil => cases h
  | cons entry entries ih =>
    rw [List.map_cons, List.nodup_cons] at hkeys
    rcases List.mem_cons.mp h with rfl | hmem
    · exact List.lookup_cons_self
    · have hother : ¬ key = entry.1 := fun hkey => hkeys.1 (hkey ▸ List.mem_map_of_mem hmem)
      rw [List.lookup_cons, beq_false_of_ne hother]
      exact ih hkeys.2 hmem

theorem mem_of_lookup {key : κ} {value : α} {entries : List (κ × α)} (h : entries.lookup key = some value) :
    (key, value) ∈ entries := by
  obtain ⟨before, after, rfl, _⟩ := List.lookup_eq_some_iff.mp h
  simp

theorem lookup_perm {entries entries' : List (κ × α)} (h : entries.Perm entries')
    (hkeys : (entries.map Prod.fst).Nodup) (key : κ) : entries.lookup key = entries'.lookup key := by
  have hkeys' : (entries'.map Prod.fst).Nodup := (h.map Prod.fst).nodup_iff.mp hkeys
  cases hlookup : entries'.lookup key with
  | some value => exact lookup_of_mem hkeys (h.mem_iff.mpr (mem_of_lookup hlookup))
  | none =>
    cases hlookup' : entries.lookup key with
    | none => rfl
    | some value =>
      rw [lookup_of_mem hkeys' (h.mem_iff.mp (mem_of_lookup hlookup'))] at hlookup
      cases hlookup

end

/-- The order in which a dictionary gives its values, which only the hashes of
its keys decide. -/
structure HashOrder (α : Type*) where
  arrange : List α → List α
  perm : ∀ values, (arrange values).Perm values

def arrayDictionaryMaxSize : Nat := 30

structure Bag (α : Type*) where
  nextKey : UInt64 := 0
  key0 : Option UInt64 := none
  value0 : Option α := none
  pairs : List (UInt64 × α) := []
  dictionary : Option (List (UInt64 × α)) := none
  onlyFastPath : Bool := true
  deriving DecidableEq

namespace Bag

def insert (b : Bag α) (element : α) : UInt64 × Bag α :=
  let key := b.nextKey
  let b := { b with nextKey := b.nextKey + 1 }
  if b.key0 = none then (key, { b with key0 := some key, value0 := some element })
  else
    let b := { b with onlyFastPath := false }
    match b.dictionary with
    | some dictionary => (key, { b with dictionary := some ((key, element) :: without key dictionary) })
    | none =>
      if b.pairs.length < arrayDictionaryMaxSize then (key, { b with pairs := b.pairs ++ [(key, element)] })
      else (key, { b with dictionary := some [(key, element)] })

def count (b : Bag α) : Nat :=
  let dictionaryCount := (b.dictionary.map List.length).getD 0
  (if b.value0.isSome then 1 else 0) + b.pairs.length + dictionaryCount

def removeAll (b : Bag α) : Bag α :=
  { b with key0 := none, value0 := none, pairs := [], dictionary := b.dictionary.map fun _ => [] }

/-- The first pair with this key, and the pairs without it. -/
def removePair (key : UInt64) : List (UInt64 × α) → Option (α × List (UInt64 × α))
  | [] => none
  | pair :: pairs =>
    if pair.1 = key then some (pair.2, pairs)
    else (removePair key pairs).map fun found => (found.1, pair :: found.2)

/-- A result `none` is a trap: a first key without a value. -/
def removeKey (b : Bag α) (key : UInt64) : Option (Option α × Bag α) :=
  if b.key0 = some key then
    b.value0.map fun value => (some value, { b with key0 := none, value0 := none })
  else
    match b.dictionary.bind (·.lookup key) with
    | some existingObject =>
      some (some existingObject, { b with dictionary := b.dictionary.map (without key) })
    | none =>
      match removePair key b.pairs with
      | some (value, pairs) => some (some value, { b with pairs })
      | none => some (none, b)

/-- The elements in the order in which `action` gets them. -/
def forEach (b : Bag α) (order : HashOrder α) : List α :=
  if b.onlyFastPath then b.value0.toList
  else
    b.value0.toList ++ b.pairs.map Prod.snd ++
      if 0 < (b.dictionary.map List.length).getD 0 then
        order.arrange ((b.dictionary.getD []).map Prod.snd)
      else []

/-- `dispatch` and `disposeAll` visit a bag alike. -/
def dispatch (b : Bag α) (order : HashOrder α) : List α :=
  b.value0.toList ++
    if b.onlyFastPath then []
    else
      b.pairs.map Prod.snd ++
        match b.dictionary with
        | some dictionary => order.arrange (dictionary.map Prod.snd)
        | none => []

end Bag

inductive BagCall (α : Type*)
  | insert (element : α)
  | removeKey (key : UInt64)
  | removeAll
  deriving DecidableEq

inductive BagAnswer (α : Type*)
  | key (key : UInt64)
  | removed (element : Option α)
  deriving DecidableEq

def BagCall.isInsert : BagCall α → Bool
  | insert _ => true
  | _ => false

def bag : Machine (Option (Bag α)) (BagCall α) (BagAnswer α) where
  step
    | none, _ => (none, [])
    | some b, .insert element => (some (b.insert element).2, [.key (b.insert element).1])
    | some b, .removeKey key =>
      match b.removeKey key with
      | none => (none, [])
      | some (value, b') => (some b', [.removed value])
    | some b, .removeAll => (some b.removeAll, [])

/-- What a bag is for: a finite map from keys, each given out once. -/
structure BagLaw (α : Type*) where
  inserted : Nat := 0
  entries : List (UInt64 × α) := []

def bagLaw : Machine (BagLaw α) (BagCall α) (BagAnswer α) where
  step
    | law, .insert element =>
      let key := UInt64.ofNat law.inserted
      (⟨law.inserted + 1, law.entries ++ [(key, element)]⟩, [.key key])
    | law, .removeKey key =>
      (⟨law.inserted, without key law.entries⟩, [.removed (law.entries.lookup key)])
    | law, .removeAll => (⟨law.inserted, []⟩, [])

namespace Bag

def inlined (b : Bag α) : List (UInt64 × α) :=
  match b.key0, b.value0 with
  | some key, some value => [(key, value)]
  | _, _ => []

def entries (b : Bag α) : List (UInt64 × α) := b.inlined ++ (b.pairs ++ b.dictionary.getD [])

structure Holds (b : Bag α) (law : BagLaw α) : Prop where
  nextKey : b.nextKey = UInt64.ofNat law.inserted
  inlined : b.key0.isSome = b.value0.isSome
  entries : b.entries.Perm law.entries
  keys : (law.entries.map Prod.fst).Nodup
  issued : ∀ entry ∈ law.entries, entry.1.toNat < law.inserted
  fastPath : b.onlyFastPath = true → b.pairs = [] ∧ b.dictionary = none

theorem removePair_eq {key : UInt64} {pairs : List (UInt64 × α)} (hkeys : (pairs.map Prod.fst).Nodup) :
    removePair key pairs = (pairs.lookup key).map fun value => (value, without key pairs) := by
  induction pairs with
  | nil => rfl
  | cons pair pairs ih =>
    obtain ⟨key', value⟩ := pair
    rw [List.map_cons, List.nodup_cons] at hkeys
    rw [removePair]
    by_cases hkey : key' = key
    · subst hkey
      rw [if_pos rfl, List.lookup_cons_self, Option.map_some, without_cons_self, without_of_not_mem hkeys.1]
    · have hother : ¬ key = key' := fun h => hkey h.symm
      rw [if_neg hkey, ih hkeys.2, List.lookup_cons, beq_false_of_ne hother, Option.map_map,
        without_cons_of_ne hkey]
      rfl

section

variable {b : Bag α} {law : BagLaw α}

theorem Holds.keys_nodup (h : b.Holds law) : (b.entries.map Prod.fst).Nodup :=
  (h.entries.map Prod.fst).nodup_iff.mpr h.keys

theorem inlined_length (hinlined : b.key0.isSome = b.value0.isSome) :
    b.inlined.length = if b.value0.isSome then 1 else 0 := by
  rw [inlined]
  cases hkey : b.key0 with
  | none =>
    rw [hkey] at hinlined
    rw [← hinlined]
    rfl
  | some key =>
    obtain ⟨value, hvalue⟩ := Option.isSome_iff_exists.mp (hinlined.symm.trans (congrArg Option.isSome hkey))
    rw [hvalue]
    rfl

theorem inlined_values (hinlined : b.key0.isSome = b.value0.isSome) :
    b.inlined.map Prod.snd = b.value0.toList := by
  rw [inlined]
  cases hkey : b.key0 with
  | none =>
    have hvalue : b.value0 = none := by simpa [hkey] using hinlined.symm
    rw [hvalue]
    rfl
  | some key =>
    obtain ⟨value, hvalue⟩ := Option.isSome_iff_exists.mp (hinlined.symm.trans (congrArg Option.isSome hkey))
    rw [hvalue]
    rfl

theorem Holds.count_eq (h : b.Holds law) : b.count = law.entries.length := by
  have hdictionary : (b.dictionary.map List.length).getD 0 = (b.dictionary.getD []).length := by
    cases b.dictionary <;> rfl
  rw [← h.entries.length_eq, Bag.entries, List.length_append, List.length_append, inlined_length h.inlined,
    count, hdictionary, Nat.add_assoc]

/-- Everything `insert` can do to a bag. -/
inductive Inserted (b : Bag α) (element : α) : Bag α → Prop
  | inline (hkey : b.key0 = none) :
      Inserted b element { b with
        nextKey := b.nextKey + 1
        key0 := some b.nextKey
        value0 := some element }
  | pair (hdictionary : b.dictionary = none) :
      Inserted b element { b with
        nextKey := b.nextKey + 1
        pairs := b.pairs ++ [(b.nextKey, element)]
        onlyFastPath := false }
  | dictionary {dictionary : List (UInt64 × α)} (hdictionary : b.dictionary.getD [] = dictionary) :
      Inserted b element { b with
        nextKey := b.nextKey + 1
        dictionary := some ((b.nextKey, element) :: without b.nextKey dictionary)
        onlyFastPath := false }

theorem insert_cases (b : Bag α) (element : α) :
    (b.insert element).1 = b.nextKey ∧ Inserted b element (b.insert element).2 := by
  cases hkey : b.key0 with
  | none =>
    simp only [insert, hkey, if_true, true_and]
    exact .inline hkey
  | some key =>
    have hinlined : ¬ (some key = none) := Option.some_ne_none key
    cases hdictionary : b.dictionary with
    | some dictionary =>
      simp only [insert, hkey, hdictionary, if_neg hinlined, true_and]
      rw [← hkey]
      exact .dictionary (by rw [hdictionary]; rfl)
    | none =>
      by_cases hroom : b.pairs.length < arrayDictionaryMaxSize
      · simp only [insert, hkey, hdictionary, if_neg hinlined, if_pos hroom, true_and]
        rw [← hkey, ← hdictionary]
        exact .pair hdictionary
      · simp only [insert, hkey, hdictionary, if_neg hinlined, if_neg hroom, true_and]
        rw [← hkey]
        exact .dictionary (by rw [hdictionary, Option.getD_none])

theorem Inserted.entries {element : α} {b' : Bag α} (h : Inserted b element b')
    (hnew : b.nextKey ∉ b.entries.map Prod.fst) :
    b'.entries.Perm ((b.nextKey, element) :: b.entries) := by
  cases h with
  | inline hkey =>
    have hempty : b.inlined = [] := by simp [inlined, hkey]
    rw [Bag.entries, Bag.entries, hempty]
    exact List.Perm.refl _
  | pair hdictionary =>
    have hbag : b.entries = b.inlined ++ b.pairs := by
      rw [Bag.entries, hdictionary, Option.getD_none, List.append_nil]
    have hentries : Bag.entries { b with
        nextKey := b.nextKey + 1
        pairs := b.pairs ++ [(b.nextKey, element)]
        onlyFastPath := false } = b.inlined ++ b.pairs ++ [(b.nextKey, element)] := by
      simp [Bag.entries, hdictionary, inlined]
    rw [hentries, hbag]
    exact List.perm_append_singleton _ _
  | @dictionary dictionary hdictionary =>
    have hbag : b.entries = b.inlined ++ b.pairs ++ dictionary := by
      rw [Bag.entries, hdictionary, List.append_assoc]
    have hold : b.nextKey ∉ dictionary.map Prod.fst := fun hmem => hnew (by
      rw [hbag, List.map_append]
      exact List.mem_append_right _ hmem)
    have hentries : Bag.entries { b with
        nextKey := b.nextKey + 1
        dictionary := some ((b.nextKey, element) :: without b.nextKey dictionary)
        onlyFastPath := false } = b.inlined ++ b.pairs ++ (b.nextKey, element) :: dictionary := by
      simp [Bag.entries, inlined, without_of_not_mem hold]
    rw [hentries, hbag]
    exact List.perm_middle

theorem Holds.insert (h : b.Holds law) (hroom : law.inserted < 2 ^ 64) (element : α) :
    (b.insert element).1 = UInt64.ofNat law.inserted ∧
      (b.insert element).2.Holds
        ⟨law.inserted + 1, law.entries ++ [(UInt64.ofNat law.inserted, element)]⟩ := by
  have hnumber : (UInt64.ofNat law.inserted).toNat = law.inserted := UInt64.toNat_ofNat_of_lt' hroom
  have hnew : UInt64.ofNat law.inserted ∉ law.entries.map Prod.fst := by
    intro hmem
    obtain ⟨entry, hentry, hkey⟩ := List.mem_map.mp hmem
    have hissued := h.issued entry hentry
    rw [hkey, hnumber] at hissued
    exact Nat.lt_irrefl _ hissued
  have hnew' : b.nextKey ∉ b.entries.map Prod.fst := by
    rw [h.nextKey, (h.entries.map Prod.fst).mem_iff]
    exact hnew
  have hnext : UInt64.ofNat (law.inserted + 1) = b.nextKey + 1 := by
    rw [UInt64.ofNat_add, ← h.nextKey]
    rfl
  obtain ⟨hkey, hinserted⟩ := insert_cases b element
  refine ⟨hkey.trans h.nextKey, ?_⟩
  generalize (b.insert element).2 = b' at hinserted
  have hentries := (hinserted.entries hnew').trans (h.entries.cons _)
  rw [h.nextKey] at hentries
  refine ⟨?_, ?_, hentries.trans (List.perm_append_singleton _ _).symm, ?_, ?_, ?_⟩
  · cases hinserted <;> exact hnext.symm
  · cases hinserted with
    | inline _ => rfl
    | pair _ => exact h.inlined
    | dictionary _ => exact h.inlined
  · rw [List.map_append, List.map_singleton, List.nodup_append_comm, List.singleton_append, List.nodup_cons]
    exact ⟨hnew, h.keys⟩
  · intro entry hentry
    rcases List.mem_append.mp hentry with hold | hlast
    · exact Nat.lt_succ_of_lt (h.issued entry hold)
    · rw [List.mem_singleton.mp hlast, hnumber]
      exact Nat.lt_succ_self _
  · cases hinserted with
    | inline _ => exact h.fastPath
    | pair _ => exact fun hfast => Bool.noConfusion hfast
    | dictionary _ => exact fun hfast => Bool.noConfusion hfast

theorem Holds.without (h : b.Holds law) {key : UInt64} {b' : Bag α} (hnext : b'.nextKey = b.nextKey)
    (hinlined : b'.key0.isSome = b'.value0.isSome) (hentries : b'.entries = without key b.entries)
    (hfast : b'.onlyFastPath = true → b'.pairs = [] ∧ b'.dictionary = none) :
    b'.Holds ⟨law.inserted, Rx.without key law.entries⟩ := by
  have hsublist : (Rx.without key law.entries).Sublist law.entries := List.filter_sublist
  refine ⟨hnext.trans h.nextKey, hinlined, ?_, (hsublist.map Prod.fst).nodup h.keys, ?_, hfast⟩
  · rw [hentries]
    exact h.entries.filter _
  · exact fun entry hentry => h.issued entry (hsublist.mem hentry)

theorem Holds.removeKey (h : b.Holds law) (key : UInt64) :
    ∃ b', b.removeKey key = some (law.entries.lookup key, b') ∧
      b'.Holds ⟨law.inserted, Rx.without key law.entries⟩ := by
  have hkeys := h.keys_nodup
  have hlookup : b.entries.lookup key = law.entries.lookup key := lookup_perm h.entries hkeys key
  rw [← hlookup]
  by_cases hfirst : b.key0 = some key
  · obtain ⟨value, hvalue⟩ := Option.isSome_iff_exists.mp
      (h.inlined.symm.trans (congrArg Option.isSome hfirst))
    have hbag : b.entries = (key, value) :: (b.pairs ++ b.dictionary.getD []) := by
      simp [Bag.entries, Bag.inlined, hfirst, hvalue]
    rw [hbag, List.map_cons, List.nodup_cons] at hkeys
    refine ⟨{ b with key0 := none, value0 := none }, ?_, ?_⟩
    · rw [Bag.removeKey, if_pos hfirst, hvalue, hbag, List.lookup_cons_self]
      rfl
    · refine h.without rfl rfl ?_ h.fastPath
      rw [hbag, without_cons_self, without_of_not_mem hkeys.1]
      rfl
  · have hinline : key ∉ b.inlined.map Prod.fst := by
      rw [Bag.inlined]
      cases hkey : b.key0 with
      | none => exact List.not_mem_nil
      | some first =>
        cases b.value0 with
        | none => exact List.not_mem_nil
        | some value => exact fun hmem => hfirst (hkey.trans (congrArg some (List.mem_singleton.mp hmem).symm))
    have hrest : b.entries.lookup key = (b.pairs ++ b.dictionary.getD []).lookup key := by
      rw [Bag.entries, List.lookup_append, lookup_of_not_mem hinline, Option.none_or]
    have hsplit : Rx.without key b.entries =
        b.inlined ++ (Rx.without key b.pairs ++ Rx.without key (b.dictionary.getD [])) := by
      rw [Bag.entries, without_append, without_append, without_of_not_mem hinline]
    have hrest' : ((b.pairs ++ b.dictionary.getD []).map Prod.fst).Nodup := by
      rw [Bag.entries, List.map_append] at hkeys
      exact (List.nodup_append.mp hkeys).2.1
    have hpairs : (b.pairs.map Prod.fst).Nodup := by
      rw [List.map_append] at hrest'
      exact (List.nodup_append.mp hrest').1
    rw [hrest, Bag.removeKey, if_neg hfirst]
    cases hdictionary : b.dictionary.bind (·.lookup key) with
    | some existingObject =>
      obtain ⟨dictionary, hsome, hfound⟩ := Option.bind_eq_some_iff.mp hdictionary
      have hmem : (key, existingObject) ∈ b.pairs ++ b.dictionary.getD [] := by
        rw [hsome]
        exact List.mem_append_right _ (mem_of_lookup hfound)
      have hpairs' : key ∉ b.pairs.map Prod.fst := by
        intro hpair
        rw [List.map_append] at hrest'
        refine (List.nodup_append.mp hrest').2.2 key hpair key ?_ rfl
        rw [hsome]
        exact List.mem_map_of_mem (mem_of_lookup hfound)
      refine ⟨{ b with dictionary := b.dictionary.map (Rx.without key) }, ?_, ?_⟩
      · rw [lookup_of_mem hrest' hmem]
      · refine h.without rfl h.inlined ?_ fun hfast => ?_
        · rw [hsplit, without_of_not_mem hpairs', hsome]
          rfl
        · rw [(h.fastPath hfast).2] at hsome
          cases hsome
    | none =>
      have hmissing : (b.dictionary.getD []).lookup key = none := by
        cases hsome : b.dictionary with
        | none => rfl
        | some dictionary => rwa [hsome] at hdictionary
      have hkept := without_of_not_mem (not_mem_of_lookup hmissing)
      rw [List.lookup_append, hmissing, Option.or_none, removePair_eq hpairs]
      cases hfound : b.pairs.lookup key with
      | some value =>
        refine ⟨{ b with pairs := Rx.without key b.pairs }, rfl, h.without rfl h.inlined ?_ fun hfast => ?_⟩
        · rw [hsplit, hkept]
          rfl
        · rw [(h.fastPath hfast).1] at hfound
          cases hfound
      | none =>
        refine ⟨b, rfl, h.without rfl h.inlined ?_ h.fastPath⟩
        rw [hsplit, hkept, without_of_not_mem (not_mem_of_lookup hfound)]
        rfl

theorem Holds.removeAll (h : b.Holds law) : b.removeAll.Holds ⟨law.inserted, []⟩ := by
  have hentries : b.removeAll.entries = [] := by
    cases hdictionary : b.dictionary <;> simp [Bag.removeAll, Bag.entries, Bag.inlined, hdictionary]
  refine ⟨h.nextKey, rfl, hentries ▸ List.Perm.refl _, List.nodup_nil, ?_, fun hfast => ?_⟩
  · intro entry hentry
    cases hentry
  · obtain ⟨_, hdictionary⟩ := h.fastPath hfast
    exact ⟨rfl, by rw [Bag.removeAll, hdictionary, Option.map_none]⟩

theorem dispatch_eq (hfast : b.onlyFastPath = true → b.pairs = [] ∧ b.dictionary = none)
    (order : HashOrder α) : b.dispatch order =
      b.value0.toList ++ (b.pairs.map Prod.snd ++ order.arrange ((b.dictionary.getD []).map Prod.snd)) := by
  have hnil : order.arrange [] = [] := List.perm_nil.mp (order.perm [])
  rw [dispatch]
  cases hpath : b.onlyFastPath with
  | true =>
    obtain ⟨hpairs, hdictionary⟩ := hfast hpath
    simp [hpairs, hdictionary, hnil]
  | false =>
    cases b.dictionary with
    | none => simp [hnil]
    | some dictionary => simp

/-- The fast path hides nothing, and both ways to visit a bag are one. -/
theorem forEach_eq_dispatch (hfast : b.onlyFastPath = true → b.pairs = [] ∧ b.dictionary = none)
    (order : HashOrder α) : b.forEach order = b.dispatch order := by
  have hnil : order.arrange [] = [] := List.perm_nil.mp (order.perm [])
  rw [dispatch_eq hfast, forEach]
  cases hpath : b.onlyFastPath with
  | true =>
    obtain ⟨hpairs, hdictionary⟩ := hfast hpath
    simp [hpairs, hdictionary, hnil]
  | false =>
    cases b.dictionary with
    | none => simp [hnil]
    | some dictionary =>
      cases dictionary with
      | nil => simp [hnil]
      | cons entry dictionary => simp

theorem Holds.dispatch (h : b.Holds law) (order : HashOrder α) :
    (b.dispatch order).Perm (law.entries.map Prod.snd) := by
  have hvalues : (b.entries.map Prod.snd).Perm (law.entries.map Prod.snd) := h.entries.map _
  rw [dispatch_eq h.fastPath]
  refine List.Perm.trans ?_ hvalues
  rw [Bag.entries, List.map_append, List.map_append, inlined_values h.inlined]
  exact ((order.perm _).append_left _).append_left _

end

def Represents (state : Option (Bag α)) (law : BagLaw α) : Prop := ∃ b, state = some b ∧ b.Holds law

theorem Represents.step {state : Option (Bag α)} {law : BagLaw α} (h : Represents state law)
    {call : BagCall α} (hroom : call.isInsert = true → law.inserted < 2 ^ 64) :
    (bag.step state call).2 = (bagLaw.step law call).2 ∧
      Represents (bag.step state call).1 (bagLaw.step law call).1 := by
  obtain ⟨b, rfl, hb⟩ := h
  cases call with
  | insert element =>
    obtain ⟨hkey, hinserted⟩ := hb.insert (hroom rfl) element
    exact ⟨congrArg (fun key => [BagAnswer.key key]) hkey, _, rfl, hinserted⟩
  | removeKey key =>
    obtain ⟨b', hremove, hb'⟩ := hb.removeKey key
    have hstep : bag.step (some b) (.removeKey key) = (some b', [.removed (law.entries.lookup key)]) := by
      simp only [bag, hremove]
    rw [hstep]
    exact ⟨rfl, b', rfl, hb'⟩
  | removeAll => exact ⟨rfl, _, rfl, hb.removeAll⟩

theorem empty_represents : Represents (some {}) ({} : BagLaw α) := by
  refine ⟨_, rfl, rfl, rfl, List.Perm.refl _, List.nodup_nil, ?_, fun _ => ⟨rfl, rfl⟩⟩
  intro entry hentry
  cases hentry

end Bag

/-- Over any calls that insert at most 2^64 times the bag never traps and is a
finite map, and whoever visits it gets every element it holds once. -/
theorem bag_is_map (calls : List (BagCall α)) (h : calls.countP BagCall.isInsert ≤ 2 ^ 64) :
    bag.outputs (some {}) calls = bagLaw.outputs {} calls ∧
      ∃ b, bag.run (some {}) calls = some b ∧ b.count = (bagLaw.run {} calls).entries.length ∧
        ∀ order, (b.forEach order).Perm ((bagLaw.run {} calls).entries.map Prod.snd) ∧
          b.dispatch order = b.forEach order := by
  have hinserted (law : BagLaw α) (call : BagCall α) :
      (bagLaw.step law call).1.inserted ≤ law.inserted + if call.isInsert then 1 else 0 := by
    cases call <;> exact Nat.le_refl _
  have hstep (state : Option (Bag α)) (law : BagLaw α) (call : BagCall α) (hbag : Bag.Represents state law)
      (hroom : law.inserted + (if call.isInsert then 1 else 0) ≤ 2 ^ 64) :
      (bag.step state call).2 = (bagLaw.step law call).2 ∧
        Bag.Represents (bag.step state call).1 (bagLaw.step law call).1 := by
    refine hbag.step fun hinsert => ?_
    rw [if_pos hinsert] at hroom
    exact hroom
  obtain ⟨houtputs, b, hb, hholds⟩ :=
    bag.run_simulates_within bagLaw hinserted hstep Bag.empty_represents calls (by simpa using h)
  refine ⟨houtputs, b, hb, hholds.count_eq, fun order => ?_⟩
  rw [Bag.forEach_eq_dispatch hholds.fastPath]
  exact ⟨hholds.dispatch order, rfl⟩

/-- Thirty-two elements fill the first entry, the array and the dictionary. -/
theorem bag_of_three_tiers :
    ∃ b, bag.run (some {}) (List.replicate 32 (.insert ())) = some b ∧ b.count = 32 := by
  obtain ⟨_, b, hb, hcount, _⟩ := bag_is_map (List.replicate 32 (.insert ())) (by decide)
  exact ⟨b, hb, hcount.trans (by decide)⟩

end Rx
