import Mathlib.Data.List.Basic

/-! One-to-one relationships between two tables whose rows are named by their
places. Rows are added at the end and never deleted. Assigning a destination to
a row also maintains the inverse end, and whatever either row was related to
before is left without a partner. -/

namespace OneToOne

variable {α β : Type*}

structure End (α : Type*) where
  get : α → Option Nat
  set : Option Nat → α → α
  get_set : ∀ v a, get (set v a) = v

def link (f : End α) (rows : List α) (i : Nat) : Option Nat := rows[i]?.bind f.get

def unlink (f : End α) (rows : List α) : Option Nat → List α
  | none => rows
  | some i => rows.modify i (f.set none)

def relate (f : End α) (g : End β) (i j : Nat) (as : List α) (bs : List β) : List α × List β :=
  ((unlink f as (link g bs j)).modify i (f.set (some j)),
    (unlink g bs (link f as i)).modify j (g.set (some i)))

def Mirrored (f : End α) (g : End β) (as : List α) (bs : List β) : Prop :=
  ∀ i j, link f as i = some j ↔ link g bs j = some i

@[simp] theorem unlink_length (f : End α) (rows : List α) (old : Option Nat) :
    (unlink f rows old).length = rows.length := by
  cases old <;> simp [unlink]

theorem relate_lengths (f : End α) (g : End β) (i j : Nat) (as : List α) (bs : List β) :
    (relate f g i j as bs).1.length = as.length ∧ (relate f g i j as bs).2.length = bs.length := by
  simp [relate]

theorem link_lt {f : End α} {rows : List α} {i j : Nat} (h : link f rows i = some j) :
    i < rows.length := by
  obtain ⟨row, hrow, _⟩ := Option.bind_eq_some_iff.mp h
  exact (List.getElem?_eq_some_iff.mp hrow).1

theorem link_modify (f : End α) (rows : List α) (i k : Nat) (v : Option Nat) (hi : i < rows.length) :
    link f (rows.modify i (f.set v)) k = if k = i then v else link f rows k := by
  by_cases hk : k = i
  · subst k
    simp [link, List.getElem?_eq_getElem hi, f.get_set]
  · have hne : i ≠ k := Ne.symm hk
    simp [link, List.getElem?_modify_ne _ _ hne, hk]

theorem link_modify_other (f : End α) {h : α → α} (hget : ∀ a, f.get (h a) = f.get a)
    (rows : List α) (i k : Nat) : link f (rows.modify i h) k = link f rows k := by
  by_cases hk : i = k
  · subst hk
    cases hrow : rows[i]? with
    | none => simp [link, hrow]
    | some row => simp [link, hrow, hget]
  · simp [link, List.getElem?_modify_ne _ _ hk]

theorem link_unlink (f : End α) (rows : List α) (old : Option Nat) (k : Nat) :
    link f (unlink f rows old) k = if old = some k then none else link f rows k := by
  cases old with
  | none => simp [unlink]
  | some i =>
    by_cases hi : i < rows.length
    · rw [unlink, link_modify f rows i k none hi]
      simp only [Option.some.injEq, eq_comm (a := k)]
    · have hrow : rows.modify i (f.set none) = rows := List.modify_eq_self (Nat.le_of_not_lt hi)
      rw [unlink, hrow]
      by_cases hk : i = k
      · subst hk
        simp [link, List.getElem?_eq_none (Nat.le_of_not_lt hi)]
      · simp [hk]

theorem link_append (f : End α) (rows more : List α) (k : Nat) :
    link f (rows ++ more) k =
      if k < rows.length then link f rows k else link f more (k - rows.length) := by
  by_cases hk : k < rows.length
  · simp [link, List.getElem?_append_left hk, hk]
  · simp [link, List.getElem?_append_right (Nat.le_of_not_lt hk), hk]

theorem link_unlink_other (f : End α) {h : End α} (hget : ∀ v a, f.get (h.set v a) = f.get a)
    (rows : List α) (old : Option Nat) (k : Nat) : link f (unlink h rows old) k = link f rows k := by
  cases old with
  | none => rfl
  | some i => exact link_modify_other f (hget none) rows i k

theorem link_relate_other (f : End α) {h : End α} (hget : ∀ v a, f.get (h.set v a) = f.get a)
    (g : End β) (i j : Nat) (as : List α) (bs : List β) (k : Nat) :
    link f (relate h g i j as bs).1 k = link f as k := by
  rw [relate, link_modify_other f (hget (some j)), link_unlink_other f hget]

theorem Mirrored.symm {f : End α} {g : End β} {as : List α} {bs : List β}
    (h : Mirrored f g as bs) : Mirrored g f bs as := fun i j => (h j i).symm

theorem Mirrored.lt {f : End α} {g : End β} {as : List α} {bs : List β} (h : Mirrored f g as bs)
    {i j : Nat} (hl : link f as i = some j) : j < bs.length := link_lt ((h i j).mp hl)

theorem Mirrored.insert {f : End α} {g : End β} {as : List α} {bs : List β} (h : Mirrored f g as bs)
    {a : α} (ha : f.get a = none) : Mirrored f g (as ++ [a]) bs := by
  intro i j
  have hl : link f (as ++ [a]) i = link f as i := by
    rw [link_append]
    by_cases hi : i < as.length
    · simp [hi]
    · by_cases hz : i - as.length = 0
      · simp [hi, hz, link, ha]
      · obtain ⟨n, hn⟩ := Nat.exists_eq_succ_of_ne_zero hz
        simp [hi, hn, link]
  rw [hl]
  exact h i j

theorem Mirrored.congr {f : End α} {g : End β} {as as' : List α} {bs : List β} (h : Mirrored f g as bs)
    (hlink : ∀ k, link f as' k = link f as k) : Mirrored f g as' bs := by
  intro i j
  rw [hlink]
  exact h i j

theorem relate_mirrored {f : End α} {g : End β} {as : List α} {bs : List β} {i j : Nat}
    (h : Mirrored f g as bs) (hi : i < as.length) (hj : j < bs.length) :
    Mirrored f g (relate f g i j as bs).1 (relate f g i j as bs).2 := by
  intro k l
  have hleft : link f (relate f g i j as bs).1 k =
      if k = i then some j else if link g bs j = some k then none else link f as k := by
    rw [relate, link_modify f _ i k _ (by simpa using hi), link_unlink]
  have hright : link g (relate f g i j as bs).2 l =
      if l = j then some i else if link f as i = some l then none else link g bs l := by
    rw [relate, link_modify g _ j l _ (by simpa using hj), link_unlink]
  rw [hleft, hright]
  have hkl := h k l
  have hil := h i l
  have hkj := h k j
  by_cases hk : k = i
  · subst k
    by_cases hl : l = j
    · simp [hl]
    · have hjl : j ≠ l := Ne.symm hl
      by_cases hold : link f as i = some l
      · simp [hl, hjl, hold]
      · have hnot : link g bs l ≠ some i := fun he => hold (hil.mpr he)
        simp [hl, hjl, hold, hnot]
  · by_cases hl : l = j
    · subst l
      have hik : i ≠ k := Ne.symm hk
      by_cases hold : link g bs j = some k
      · simp [hk, hik, hold]
      · have hnot : link f as k ≠ some j := fun he => hold (hkj.mp he)
        simp [hk, hik, hold, hnot]
    · by_cases hold : link g bs j = some k
      · have hfj := hkj.mpr hold
        have hnot : link g bs l ≠ some k := by
          intro he
          have hfl := hkl.mpr he
          rw [hfj] at hfl
          exact hl (Option.some.inj hfl).symm
        simp [hk, hl, hold, hnot]
      · by_cases hold' : link f as i = some l
        · have hgi := hil.mp hold'
          have hnot : link f as k ≠ some l := by
            intro he
            have hgk := hkl.mp he
            rw [hgi] at hgk
            exact hk (Option.some.inj hgk).symm
          simp [hk, hl, hold, hold', hnot]
        · simp [hk, hl, hold, hold', hkl]

/-- Every row of either table is the partner of exactly one row of the other. -/
structure Paired (f : End α) (g : End β) (as : List α) (bs : List β) : Prop where
  mirrored : Mirrored f g as bs
  left : ∀ i < as.length, ∃! j, link g bs j = some i
  right : ∀ j < bs.length, ∃! i, link f as i = some j

theorem Mirrored.exists_unique {f : End α} {g : End β} {as : List α} {bs : List β}
    (h : Mirrored f g as bs) {i : Nat} : (∃! j, link g bs j = some i) ↔ (link f as i).isSome := by
  constructor
  · rintro ⟨j, hj, _⟩
    rw [(h i j).mpr hj]
    rfl
  · intro hi
    obtain ⟨j, hj⟩ := Option.isSome_iff_exists.mp hi
    refine ⟨j, (h i j).mp hj, fun k hk => ?_⟩
    have hik := (h i k).mpr hk
    rw [hj] at hik
    exact (Option.some.inj hik).symm

theorem forall_link_isSome (f : End α) (rows : List α) :
    (∀ i < rows.length, (link f rows i).isSome) ↔ ∀ row ∈ rows, (f.get row).isSome := by
  simp only [List.forall_mem_iff_getElem, link]
  constructor
  · intro h i hi
    simpa [List.getElem?_eq_getElem hi] using h i hi
  · intro h i hi
    simpa [List.getElem?_eq_getElem hi] using h i hi

theorem Mirrored.paired_iff {f : End α} {g : End β} {as : List α} {bs : List β} (h : Mirrored f g as bs) :
    Paired f g as bs ↔ (∀ a ∈ as, (f.get a).isSome) ∧ ∀ b ∈ bs, (g.get b).isSome := by
  rw [← forall_link_isSome, ← forall_link_isSome]
  constructor
  · intro hp
    exact ⟨fun i hi => h.exists_unique.mp (hp.left i hi), fun j hj => h.symm.exists_unique.mp (hp.right j hj)⟩
  · rintro ⟨hl, hr⟩
    exact ⟨h, fun i hi => h.exists_unique.mpr (hl i hi), fun j hj => h.symm.exists_unique.mpr (hr j hj)⟩

theorem modify_snoc (rows : List α) (a : α) (h : α → α) :
    (rows ++ [a]).modify rows.length h = rows ++ [h a] := by
  induction rows with
  | nil => rfl
  | cons row rows ih =>
    simp only [List.cons_append, List.length_cons, List.modify_succ_cons, ih]

theorem modify_snoc_of_lt {rows : List α} {i : Nat} (hi : i < rows.length) (a : α) (h : α → α) :
    (rows ++ [a]).modify i h = rows.modify i h ++ [a] := by
  induction rows generalizing i with
  | nil => simp at hi
  | cons row rows ih =>
    cases i with
    | zero => rfl
    | succ i =>
      have hi' : i < rows.length := by simpa using hi
      simp only [List.cons_append, List.modify_succ_cons, ih hi']

theorem unlink_snoc (f : End α) (rows : List α) (a : α) :
    unlink f (rows ++ [a]) (some rows.length) = rows ++ [f.set none a] := modify_snoc rows a _

theorem relate_inserted {f : End α} {g : End β} {as : List α} {bs : List β} {i : Nat} {b : β}
    (hb : g.get b = none) (hold : ∀ l, link f as i = some l → l < bs.length) :
    relate f g i bs.length as (bs ++ [b]) =
      (as.modify i (f.set (some bs.length)), unlink g bs (link f as i) ++ [g.set (some i) b]) := by
  have hnew : link g (bs ++ [b]) bs.length = none := by simp [link, hb]
  have hunlink : unlink g (bs ++ [b]) (link f as i) = unlink g bs (link f as i) ++ [b] := by
    cases hl : link f as i with
    | none => rfl
    | some l => exact modify_snoc_of_lt (hold l hl) b _
  have hlen : (unlink g bs (link f as i)).length = bs.length := unlink_length g bs _
  have hmodify := modify_snoc (unlink g bs (link f as i)) b (g.set (some i))
  rw [hlen] at hmodify
  rw [relate, hnew, hunlink, hmodify]
  rfl

end OneToOne
