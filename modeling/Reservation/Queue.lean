import Reservation.Machine

/-! The ring buffer that keeps scheduled work. A result `none` is a trap: an
index outside the storage, or a slot that should hold an element and does not. -/

namespace Rx

variable {α : Type*}

/-- `array[lower ..< upper]` -/
def slice (array : List α) (lower upper : Nat) : Option (List α) :=
  if lower ≤ upper ∧ upper ≤ array.length then some ((array.drop lower).take (upper - lower)) else none

/-- `array[lower ..< upper] = elements` -/
def replaceSlice (array : List α) (lower upper : Nat) (elements : List α) : Option (List α) :=
  if lower ≤ upper ∧ upper ≤ array.length then some (array.take lower ++ elements ++ array.drop upper)
  else none

/-- `array[index] = element` -/
def replaceAt (array : List α) (index : Nat) (element : α) : Option (List α) :=
  if index < array.length then some (array.set index element) else none

structure Queue (α : Type*) where
  storage : List (Option α)
  count : Nat
  pushNextIndex : Nat
  initialCapacity : Nat
  deriving DecidableEq

namespace Queue

def resizeFactor : Nat := 2

def init (capacity : Nat) : Queue α := ⟨List.replicate capacity none, 0, 0, capacity⟩

def dequeueIndex (q : Queue α) : Nat :=
  if q.pushNextIndex < q.count then q.pushNextIndex + q.storage.length - q.count
  else q.pushNextIndex - q.count

def resizeTo (q : Queue α) (size : Nat) : Option (Queue α) := do
  let newStorage := List.replicate size none
  let spaceToEndOfQueue := q.storage.length - q.dequeueIndex
  let countElementsInFirstBatch := min q.count spaceToEndOfQueue
  let numberOfElementsInSecondBatch := q.count - countElementsInFirstBatch
  let firstBatch ← slice q.storage q.dequeueIndex (q.dequeueIndex + countElementsInFirstBatch)
  let newStorage ← replaceSlice newStorage 0 countElementsInFirstBatch firstBatch
  let secondBatch ← slice q.storage 0 numberOfElementsInSecondBatch
  let newStorage ← replaceSlice newStorage countElementsInFirstBatch
    (countElementsInFirstBatch + numberOfElementsInSecondBatch) secondBatch
  some { q with storage := newStorage, pushNextIndex := q.count }

def isFull (q : Queue α) : Bool := q.count = q.storage.length

def makeRoom (q : Queue α) : Option (Queue α) :=
  if q.isFull then q.resizeTo (max q.storage.length 1 * resizeFactor) else some q

def enqueue (q : Queue α) (element : α) : Option (Queue α) := do
  let q ← q.makeRoom
  let storage ← replaceAt q.storage q.pushNextIndex (some element)
  let pushNextIndex := q.pushNextIndex + 1
  some { q with
    storage
    count := q.count + 1
    pushNextIndex :=
      if storage.length ≤ pushNextIndex then pushNextIndex - storage.length else pushNextIndex }

def dequeueElementOnly (q : Queue α) : Option (α × Queue α) :=
  if 0 < q.count then do
    let slot ← q.storage[q.dequeueIndex]?
    let element ← slot
    let storage ← replaceAt q.storage q.dequeueIndex none
    some (element, { q with storage, count := q.count - 1 })
  else none

def isSparse (q : Queue α) : Bool :=
  let downsizeLimit := q.storage.length / (resizeFactor * resizeFactor)
  q.count < downsizeLimit ∧ q.initialCapacity ≤ downsizeLimit

def giveBack (q : Queue α) : Option (Queue α) :=
  if q.isSparse then q.resizeTo (q.storage.length / resizeFactor) else some q

def dequeue (q : Queue α) : Option (Option α × Queue α) :=
  -- the comment of the source has this throw
  if q.count = 0 then some (none, q)
  else do
    let next ← q.dequeueElementOnly
    let q ← next.2.giveBack
    some (some next.1, q)

/-- The iterator of a queue, `count` elements from the slot `i` on. -/
def iterate (storage : List (Option α)) : Nat → Nat → Option (List α)
  | _, 0 => some []
  | i, count + 1 =>
    let i := if storage.length ≤ i then i - storage.length else i
    match storage[i]? with
    | none => none
    -- an empty slot would end the iteration
    | some none => some []
    | some (some element) => (iterate storage (i + 1) count).map (element :: ·)

def makeIterator (q : Queue α) : Option (List α) := iterate q.storage q.dequeueIndex q.count

end Queue

inductive QueueCall (α : Type*)
  | enqueue (element : α)
  | dequeue
  deriving DecidableEq

namespace Queue

def step (q : Queue α) : QueueCall α → Option (Queue α × List (Option α))
  | .enqueue element => q.enqueue element |>.map fun q => (q, [])
  | .dequeue => q.dequeue |>.map fun next => (next.2, [next.1])

end Queue

/-- A queue that has trapped is gone. -/
def queue : Machine (Option (Queue α)) (QueueCall α) (Option α) where
  step
    | none, _ => (none, [])
    | some q, call =>
      match q.step call with
      | none => (none, [])
      | some (q', out) => (some q', out)

/-- What a queue is for: first in, first out. -/
def fifo : Machine (List α) (QueueCall α) (Option α) where
  step
    | xs, .enqueue element => (xs ++ [element], [])
    | [], .dequeue => ([], [none])
    | x :: xs, .dequeue => (xs, [some x])

namespace Queue

/-- How elements lie in a ring: in one piece with room behind it, or around the
end of the storage. -/
inductive Layout : List (Option α) → Nat → List α → Prop
  | unallocated : Layout [] 0 []
  | straight (before : Nat) (xs : List α) (after : Nat) :
      Layout (List.replicate before none ++ (xs.map some ++ List.replicate (after + 1) none))
        (before + xs.length) xs
  | wrapped (zs : List α) (gap : Nat) (y : α) (ys : List α) :
      Layout (zs.map some ++ (List.replicate gap none ++ (y :: ys).map some)) zs.length (y :: ys ++ zs)

structure Holds (q : Queue α) (xs : List α) : Prop where
  count : q.count = xs.length
  layout : Layout q.storage q.pushNextIndex xs

theorem replaceAt_middle {l r : List α} {a : α} {i : Nat} (hi : i = l.length) (b : α) :
    replaceAt (l ++ a :: r) i b = some (l ++ b :: r) := by
  subst hi
  simp [replaceAt]

theorem getElem?_middle {l r : List α} {a : α} {i : Nat} (hi : i = l.length) :
    (l ++ a :: r)[i]? = some a := by
  subst hi
  simp

theorem init_holds (capacity : Nat) : (init capacity : Queue α).Holds [] := by
  refine ⟨rfl, ?_⟩
  cases capacity with
  | zero => exact .unallocated
  | succ after => exact .straight 0 [] after

theorem slice_middle {l m r : List α} {lower upper : Nat} (hlower : lower = l.length)
    (hupper : upper = lower + m.length) : slice (l ++ (m ++ r)) lower upper = some m := by
  have hbounds : lower ≤ upper ∧ upper ≤ (l ++ (m ++ r)).length := by
    simp only [List.length_append]
    omega
  have hlength : upper - lower = m.length := by omega
  rw [slice, if_pos hbounds, hlower, List.drop_left, ← hlower, hlength, List.take_left]

/-- A batch is written over the room behind what was written before. -/
theorem replaceSlice_room {l m : List (Option α)} {room lower upper : Nat} (hlower : lower = l.length)
    (hupper : upper = lower + m.length) (hroom : m.length ≤ room) :
    replaceSlice (l ++ List.replicate room none) lower upper m =
      some (l ++ m ++ List.replicate (room - m.length) none) := by
  have hbounds : lower ≤ upper ∧ upper ≤ (l ++ List.replicate room (none : Option α)).length := by
    simp only [List.length_append, List.length_replicate]
    omega
  have hdrop : (l ++ List.replicate room none).drop upper =
      List.replicate (room - m.length) (none : Option α) := by
    have hlength : l.length + m.length - l.length = m.length := Nat.add_sub_cancel_left _ _
    rw [hupper, hlower, List.drop_append, List.drop_replicate, hlength,
      List.drop_eq_nil_of_le (Nat.le_add_right _ _), List.nil_append]
  rw [replaceSlice, if_pos hbounds, hdrop, hlower, List.take_left]

section

variable {q : Queue α} {xs : List α}

theorem dequeueIndex_straight {before : Nat} (hcount : q.count = xs.length)
    (hpush : q.pushNextIndex = before + xs.length) : q.dequeueIndex = before := by
  rw [dequeueIndex, hcount, hpush, if_neg (by omega), Nat.add_sub_cancel]

theorem dequeueIndex_wrapped {y : α} {ys zs : List α} {gap : Nat} (hcount : q.count = (y :: ys ++ zs).length)
    (hpush : q.pushNextIndex = zs.length)
    (hstorage : q.storage = zs.map some ++ (List.replicate gap none ++ (y :: ys).map some)) :
    q.dequeueIndex = zs.length + gap := by
  simp only [dequeueIndex, hcount, hpush, hstorage, List.length_append, List.length_map, List.length_cons,
    List.length_replicate]
  rw [if_pos (by omega)]
  omega

/-- The two batches of a queue: from its first element to the end of the storage,
and from the start of the storage on. -/
theorem Layout.batches (h : Layout q.storage q.pushNextIndex xs) (hcount : q.count = xs.length) :
    ∃ first second, xs.map some = first ++ second ∧
      min q.count (q.storage.length - q.dequeueIndex) = first.length ∧
      slice q.storage q.dequeueIndex (q.dequeueIndex + first.length) = some first ∧
      slice q.storage 0 second.length = some second := by
  generalize hstorage : q.storage = storage at h
  generalize hpush : q.pushNextIndex = push at h
  cases h with
  | unallocated =>
    have hindex : q.dequeueIndex = 0 := by simp [dequeueIndex, hcount, hpush]
    exact ⟨[], [], rfl, by simp [hcount], by simp [hindex, slice], by simp [slice]⟩
  | straight before xs after =>
    have hindex : q.dequeueIndex = before := dequeueIndex_straight hcount hpush
    refine ⟨xs.map some, [], by simp, ?_, ?_, ?_⟩
    · rw [hcount, hindex]
      simp
    · exact hindex ▸ slice_middle (by simp) rfl
    · simp [slice]
  | wrapped zs gap y ys =>
    have hindex : q.dequeueIndex = zs.length + gap := dequeueIndex_wrapped hcount hpush hstorage
    have hpiece : zs.map some ++ (List.replicate gap none ++ (y :: ys).map some) =
        (zs.map some ++ List.replicate gap none) ++ ((y :: ys).map some ++ []) := by simp
    refine ⟨(y :: ys).map some, zs.map some, by simp, ?_, ?_, ?_⟩
    · rw [hcount, hindex]
      simp
      omega
    · rw [hindex, hpiece]
      exact slice_middle (by simp) rfl
    · exact slice_middle (l := []) rfl (by simp)

/-- The queue with its elements at the front of a new storage. -/
def packed (q : Queue α) (xs : List α) (size : Nat) : Queue α :=
  { q with
    storage := xs.map some ++ List.replicate (size - xs.length) none
    pushNextIndex := xs.length }

theorem Holds.resizeTo (h : q.Holds xs) {size : Nat} (hsize : xs.length < size) :
    q.resizeTo size = some (q.packed xs size) := by
  obtain ⟨first, second, hxs, hfirst, hslice, hslice'⟩ := h.layout.batches h.count
  have hlength : first.length + second.length = xs.length := by
    rw [← List.length_append, ← hxs, List.length_map]
  have hsecond : q.count - first.length = second.length := by
    rw [h.count]
    omega
  have hroom : replaceSlice (List.replicate size none) 0 first.length first =
      some (first ++ List.replicate (size - first.length) none) :=
    replaceSlice_room (l := []) rfl (by simp) (by omega)
  have hroom' : replaceSlice (first ++ List.replicate (size - first.length) none) first.length
      (first.length + second.length) second =
        some (first ++ second ++ List.replicate (size - first.length - second.length) none) :=
    replaceSlice_room rfl rfl (by omega)
  simp only [Queue.resizeTo, hfirst, hsecond, hslice, hslice', hroom, hroom', Option.bind_eq_bind,
    Option.bind_some, packed, hxs]
  rw [Nat.sub_sub, hlength, h.count]

theorem packed_holds (hcount : q.count = xs.length) {size : Nat} (hsize : xs.length < size) :
    (q.packed xs size).Holds xs := by
  obtain ⟨after, hafter⟩ := Nat.exists_eq_add_of_lt hsize
  have hlayout := Layout.straight 0 xs after
  have hroom : size - xs.length = after + 1 := by omega
  refine ⟨hcount, ?_⟩
  rw [packed, hroom]
  simpa using hlayout

theorem packed_length {size : Nat} (hsize : xs.length < size) : (q.packed xs size).storage.length = size := by
  simp only [packed, List.length_append, List.length_map, List.length_replicate]
  omega

theorem Layout.length_le {storage : List (Option α)} {push : Nat} (h : Layout storage push xs) :
    xs.length ≤ storage.length := by
  cases h with
  | unallocated => exact Nat.le_refl 0
  | straight before xs after =>
    simp only [List.length_append, List.length_map, List.length_replicate]
    omega
  | wrapped zs gap y ys =>
    simp only [List.length_append, List.length_map, List.length_replicate, List.length_cons]
    omega

/-- The slot at `pushNextIndex` of a storage with room is empty, and filling it
puts an element behind the others. -/
theorem Layout.push {storage : List (Option α)} {push : Nat} (h : Layout storage push xs)
    (hroom : xs.length < storage.length) (x : α) : ∃ storage',
      replaceAt storage push (some x) = some storage' ∧ storage'.length = storage.length ∧
        Layout storage' (if storage'.length ≤ push + 1 then push + 1 - storage'.length else push + 1)
          (xs ++ [x]) := by
  cases h with
  | unallocated => exact absurd hroom (Nat.lt_irrefl 0)
  | straight before xs after =>
    have hpiece : List.replicate before none ++ (xs.map some ++ List.replicate (after + 1) (none : Option α)) =
        (List.replicate before none ++ xs.map some) ++ none :: List.replicate after none := by
      rw [List.replicate_succ, List.append_assoc]
    rw [hpiece]
    refine ⟨_, replaceAt_middle (by simp) (some x), by simp, ?_⟩
    cases after with
    | zero =>
      -- the last slot of the storage: the next element goes to its start
      have hwrapped : Layout (List.replicate before none ++ (xs ++ [x]).map some) 0 (xs ++ [x]) := by
        cases xs with
        | nil => exact .wrapped [] before x []
        | cons y ys => simpa using Layout.wrapped [] before y (ys ++ [x])
      have hlength : (List.replicate before (none : Option α) ++ xs.map some ++
          some x :: List.replicate 0 none).length = before + xs.length + 1 := by
        simp only [List.length_append, List.length_map, List.length_replicate, List.length_cons]
      rw [hlength, if_pos (Nat.le_refl _), Nat.sub_self]
      simpa using hwrapped
    | succ after =>
      have hstraight := Layout.straight before (xs ++ [x]) after
      have hinside : ¬ (List.replicate before (none : Option α) ++ xs.map some ++
          some x :: List.replicate (after + 1) none).length ≤ before + xs.length + 1 := by
        simp only [List.length_append, List.length_map, List.length_replicate, List.length_cons]
        omega
      rw [if_neg hinside]
      simpa [Nat.add_assoc] using hstraight
  | wrapped zs gap y ys =>
    obtain ⟨gap, rfl⟩ : ∃ n, gap = n + 1 := by
      simp only [List.length_append, List.length_map, List.length_replicate, List.length_cons] at hroom
      exact Nat.exists_eq_succ_of_ne_zero (by omega)
    have hpiece : zs.map some ++ (List.replicate (gap + 1) none ++ (y :: ys).map some) =
        zs.map some ++ none :: (List.replicate gap (none : Option α) ++ (y :: ys).map some) := by
      rw [List.replicate_succ, List.cons_append]
    rw [hpiece]
    refine ⟨_, replaceAt_middle (by simp) (some x), by simp, ?_⟩
    have hwrapped := Layout.wrapped (zs ++ [x]) gap y ys
    have hinside : ¬ (zs.map some ++ some x :: (List.replicate gap (none : Option α) ++
        (y :: ys).map some)).length ≤ zs.length + 1 := by
      simp only [List.length_append, List.length_map, List.length_replicate, List.length_cons]
      omega
    rw [if_neg hinside]
    simpa using hwrapped

/-- The slot at `dequeueIndex` holds the first element, and emptying it leaves
the others. -/
theorem Layout.pop {x : α} (h : Layout q.storage q.pushNextIndex (x :: xs))
    (hcount : q.count = (x :: xs).length) : q.storage[q.dequeueIndex]? = some (some x) ∧
      ∃ storage', replaceAt q.storage q.dequeueIndex none = some storage' ∧
        storage'.length = q.storage.length ∧ Layout storage' q.pushNextIndex xs := by
  generalize hstorage : q.storage = storage at h
  generalize hpush : q.pushNextIndex = push at h
  generalize hxs : x :: xs = elements at h hcount
  cases h with
  | unallocated => cases hxs
  | straight before elements after =>
    subst hxs
    have hindex : q.dequeueIndex = before := dequeueIndex_straight hcount hpush
    have hpiece : List.replicate before none ++ ((x :: xs).map some ++ List.replicate (after + 1) none) =
        List.replicate before none ++ some x :: (xs.map some ++ List.replicate (after + 1) none) := rfl
    have hstraight := Layout.straight (before + 1) xs after
    rw [hindex, hpiece]
    refine ⟨getElem?_middle (by simp), _, replaceAt_middle (by simp) none, by simp, ?_⟩
    rw [List.replicate_succ', List.append_assoc, List.singleton_append] at hstraight
    simpa [Nat.add_assoc, Nat.add_comm 1] using hstraight
  | wrapped zs gap y ys =>
    obtain ⟨rfl, rfl⟩ := List.cons.inj hxs
    have hindex : q.dequeueIndex = zs.length + gap := dequeueIndex_wrapped hcount hpush hstorage
    have hpiece : zs.map some ++ (List.replicate gap none ++ (x :: ys).map some) =
        (zs.map some ++ List.replicate gap none) ++ some x :: ys.map some := by simp
    rw [hindex, hpiece]
    refine ⟨getElem?_middle (by simp), _, replaceAt_middle (by simp) none, by simp, ?_⟩
    cases ys with
    | nil =>
      have hstraight := Layout.straight 0 zs gap
      rw [List.replicate_succ'] at hstraight
      simpa using hstraight
    | cons y ys =>
      have hwrapped := Layout.wrapped zs (gap + 1) y ys
      rw [List.replicate_succ'] at hwrapped
      simpa using hwrapped

theorem Holds.isFull_iff (h : q.Holds xs) : q.isFull = true ↔ xs.length = q.storage.length := by
  rw [isFull, decide_eq_true_iff, h.count]

theorem Holds.makeRoom (h : q.Holds xs) : ∃ p, q.makeRoom = some p ∧ p.Holds xs ∧
    xs.length < p.storage.length ∧ p.initialCapacity = q.initialCapacity ∧
    p.storage.length = if q.isFull then max q.storage.length 1 * resizeFactor else q.storage.length := by
  rw [Queue.makeRoom]
  by_cases hfull : q.isFull = true
  · have hlength := h.isFull_iff.mp hfull
    have hsize : xs.length < max q.storage.length 1 * resizeFactor := by
      rw [resizeFactor]
      omega
    rw [if_pos hfull, if_pos hfull]
    exact ⟨_, h.resizeTo hsize, packed_holds h.count hsize, by rwa [packed_length hsize], rfl,
      packed_length hsize⟩
  · have hroom : xs.length < q.storage.length :=
      Nat.lt_of_le_of_ne h.layout.length_le fun hlength => hfull (h.isFull_iff.mpr hlength)
    rw [if_neg hfull, if_neg hfull]
    exact ⟨q, rfl, h, hroom, rfl, rfl⟩

/-- One element more, in a storage that doubles when it is full. -/
theorem Holds.enqueue (h : q.Holds xs) (x : α) : ∃ q', q.enqueue x = some q' ∧ q'.Holds (xs ++ [x]) ∧
    q'.initialCapacity = q.initialCapacity ∧
    q'.storage.length = if q.isFull then max q.storage.length 1 * resizeFactor else q.storage.length := by
  obtain ⟨p, hp, hholds, hroom, hcapacity, hlength⟩ := h.makeRoom
  obtain ⟨storage', hwrite, hsame, hlayout⟩ := hholds.layout.push hroom x
  have henqueue : q.enqueue x = some { p with
      storage := storage'
      count := p.count + 1
      pushNextIndex :=
        if storage'.length ≤ p.pushNextIndex + 1 then p.pushNextIndex + 1 - storage'.length
        else p.pushNextIndex + 1 } := by
    simp only [Queue.enqueue, hp, hwrite, Option.bind_eq_bind, Option.bind_some]
  refine ⟨_, henqueue, ⟨?_, hlayout⟩, hcapacity, hsame.trans hlength⟩
  rw [hholds.count, List.length_append, List.length_singleton]

theorem Holds.dequeue_nil (h : q.Holds []) : q.dequeue = some (none, q) := by
  have hcount : q.count = 0 := h.count
  rw [Queue.dequeue, if_pos hcount]

theorem Holds.dequeueElementOnly {x : α} (h : q.Holds (x :: xs)) : ∃ p, q.dequeueElementOnly = some (x, p) ∧
    p.Holds xs ∧ p.storage.length = q.storage.length ∧ p.initialCapacity = q.initialCapacity := by
  obtain ⟨hslot, storage', hwrite, hsame, hlayout⟩ := h.layout.pop h.count
  have hcount : q.count = xs.length + 1 := h.count
  have hpop : q.dequeueElementOnly = some (x, { q with storage := storage', count := q.count - 1 }) := by
    rw [Queue.dequeueElementOnly, if_pos (by omega)]
    simp only [hslot, hwrite, Option.bind_eq_bind, Option.bind_some]
  exact ⟨_, hpop, ⟨by rw [hcount, Nat.add_sub_cancel], hlayout⟩, hsame, rfl⟩

theorem Holds.isSparse_iff (h : q.Holds xs) : q.isSparse = true ↔
    xs.length < q.storage.length / 4 ∧ q.initialCapacity ≤ q.storage.length / 4 := by
  rw [isSparse, decide_eq_true_iff, h.count]
  rfl

theorem Holds.giveBack (h : q.Holds xs) : ∃ p, q.giveBack = some p ∧ p.Holds xs ∧
    p.initialCapacity = q.initialCapacity ∧
    p.storage.length = if q.isSparse then q.storage.length / resizeFactor else q.storage.length := by
  rw [Queue.giveBack]
  by_cases hsparse : q.isSparse = true
  · have hlength := (h.isSparse_iff.mp hsparse).1
    have hsize : xs.length < q.storage.length / resizeFactor := by
      rw [resizeFactor]
      omega
    rw [if_pos hsparse, if_pos hsparse]
    exact ⟨_, h.resizeTo hsize, packed_holds h.count hsize, rfl, packed_length hsize⟩
  · rw [if_neg hsparse, if_neg hsparse]
    exact ⟨q, rfl, h, rfl, rfl⟩

/-- The first element, and a storage that is halved when it has become sparse. -/
theorem Holds.dequeue_cons {x : α} (h : q.Holds (x :: xs)) : ∃ p q', q.dequeueElementOnly = some (x, p) ∧
    q.dequeue = some (some x, q') ∧ q'.Holds xs ∧ q'.initialCapacity = q.initialCapacity ∧
    p.Holds xs ∧ p.storage.length = q.storage.length ∧
    q'.storage.length = if p.isSparse then p.storage.length / resizeFactor else p.storage.length := by
  obtain ⟨p, hpop, hp, hsame, hcapacity⟩ := h.dequeueElementOnly
  obtain ⟨q', hback, hq', hcapacity', hlength⟩ := hp.giveBack
  have hcount : q.count = xs.length + 1 := h.count
  have hdequeue : q.dequeue = some (some x, q') := by
    rw [Queue.dequeue, if_neg (by omega)]
    simp only [hpop, hback, Option.bind_eq_bind, Option.bind_some]
  exact ⟨p, q', hpop, hdequeue, hq', hcapacity'.trans hcapacity, hp, hsame, hlength⟩

theorem iterate_piece (l r : List (Option α)) (xs : List α) (n : Nat) :
    iterate (l ++ (xs.map some ++ r)) l.length (xs.length + n) =
      (iterate (l ++ (xs.map some ++ r)) (l.length + xs.length) n).map (xs ++ ·) := by
  induction xs generalizing l with
  | nil => simp
  | cons x xs ih =>
    have hslot : (l ++ ((x :: xs).map some ++ r))[l.length]? = some (some x) := by simp
    have hinside : ¬ (l ++ ((x :: xs).map some ++ r)).length ≤ l.length := by
      simp only [List.length_append, List.length_map, List.length_cons]
      omega
    have hnext := ih (l ++ [some x])
    have hpiece : l ++ [some x] ++ (xs.map some ++ r) = l ++ ((x :: xs).map some ++ r) := by simp
    have hlength : (x :: xs).length + n = xs.length + n + 1 := Nat.add_right_comm _ 1 n
    have hindex : (l ++ [some x]).length + xs.length = l.length + (x :: xs).length := by
      simp only [List.length_append, List.length_cons, List.length_nil]
      omega
    rw [hpiece, hindex, List.length_append, List.length_singleton] at hnext
    rw [hlength, iterate, if_neg hinside]
    simp only [hslot, hnext, Option.map_map]
    rfl

theorem iterate_end (storage : List (Option α)) (n : Nat) :
    iterate storage storage.length n = iterate storage 0 n := by
  cases n with
  | zero => rfl
  | succ n =>
    rw [iterate, iterate, if_pos (Nat.le_refl _), Nat.sub_self]
    by_cases hempty : storage.length ≤ 0
    · rw [if_pos hempty, Nat.zero_sub]
    · rw [if_neg hempty]

theorem Holds.makeIterator (h : q.Holds xs) : q.makeIterator = some xs := by
  have hcount := h.count
  have hlayout := h.layout
  rw [Queue.makeIterator, hcount]
  generalize hstorage : q.storage = storage at hlayout
  generalize hpush : q.pushNextIndex = push at hlayout
  cases hlayout with
  | unallocated => rfl
  | straight before xs after =>
    have hindex : q.dequeueIndex = before := dequeueIndex_straight hcount hpush
    have hpiece := iterate_piece (List.replicate before none) (List.replicate (after + 1) none) xs 0
    rw [List.length_replicate, iterate, Option.map_some, List.append_nil] at hpiece
    rw [hindex]
    exact hpiece
  | wrapped zs gap y ys =>
    have hindex : q.dequeueIndex = zs.length + gap := dequeueIndex_wrapped hcount hpush hstorage
    -- to the end of the storage, and on from its start
    have hfirst := iterate_piece (zs.map some ++ List.replicate gap none) [] (y :: ys) zs.length
    have hsecond := iterate_piece [] (List.replicate gap none ++ (y :: ys).map some) zs 0
    have hend : (zs.map some ++ List.replicate gap none).length + (y :: ys).length =
        (zs.map some ++ (List.replicate gap none ++ (y :: ys).map some)).length := by simp [Nat.add_assoc]
    have hstart : (zs.map some ++ List.replicate gap (none : Option α)).length = zs.length + gap := by simp
    rw [iterate, Option.map_some, List.append_nil, List.nil_append] at hsecond
    rw [List.append_nil, List.append_assoc, hend, iterate_end, hstart] at hfirst
    rw [hindex, List.length_append, hfirst]
    exact congrArg (Option.map (y :: ys ++ ·)) hsecond

end

/-- The elements a call makes `resizeTo` copy. -/
def copied : Option (Queue α) → QueueCall α → Nat
  | none, _ => 0
  | some q, .enqueue _ => if q.isFull then q.count else 0
  | some q, .dequeue =>
    match q.dequeueElementOnly with
    | none => 0
    | some (_, p) => if p.isSparse then p.count else 0

/-- How far a storage is from being half full. -/
def potential : Option (Queue α) → Nat
  | none => 0
  | some q => (2 * q.count - q.storage.length) + (q.storage.length - 2 * q.count)

def Represents (state : Option (Queue α)) (xs : List α) : Prop := ∃ q, state = some q ∧ q.Holds xs

theorem Represents.step {state : Option (Queue α)} {xs : List α} (h : Represents state xs)
    (call : QueueCall α) : (queue.step state call).2 = (fifo.step xs call).2 ∧
      Represents (queue.step state call).1 (fifo.step xs call).1 ∧
      copied state call + potential (queue.step state call).1 ≤ potential state + 2 := by
  obtain ⟨q, rfl, hq⟩ := h
  cases call with
  | enqueue x =>
    obtain ⟨q', henqueue, hq', _, hlength⟩ := hq.enqueue x
    have hstep : queue.step (some q) (.enqueue x) = (some q', []) := by simp [queue, Queue.step, henqueue]
    refine ⟨by rw [hstep]; rfl, ⟨q', by rw [hstep], hq'⟩, ?_⟩
    have hcount : q'.count = q.count + 1 := by
      rw [hq'.count, hq.count, List.length_append, List.length_singleton]
    rw [hstep, copied, potential, potential, hlength, hcount]
    by_cases hfull : q.isFull = true
    · have hcapacity : q.count = q.storage.length := hq.count.trans (hq.isFull_iff.mp hfull)
      rw [if_pos hfull, if_pos hfull, resizeFactor]
      omega
    · rw [if_neg hfull, if_neg hfull]
      omega
  | dequeue =>
    cases xs with
    | nil =>
      have hstep : queue.step (some q) .dequeue = (some q, [none]) := by
        simp [queue, Queue.step, hq.dequeue_nil]
      have hempty : q.dequeueElementOnly = none := by
        have hcount : q.count = 0 := hq.count
        rw [dequeueElementOnly, hcount, if_neg (Nat.lt_irrefl 0)]
      refine ⟨by rw [hstep]; rfl, ⟨q, by rw [hstep], hq⟩, ?_⟩
      rw [hstep]
      simp only [copied, hempty]
      omega
    | cons x xs =>
      obtain ⟨p, q', hpop, hdequeue, hq', _, hp, hsame, hlength⟩ := hq.dequeue_cons
      have hstep : queue.step (some q) .dequeue = (some q', [some x]) := by
        simp [queue, Queue.step, hdequeue]
      refine ⟨by rw [hstep]; rfl, ⟨q', by rw [hstep], hq'⟩, ?_⟩
      have hcount : q.count = q'.count + 1 := by rw [hq.count, hq'.count, List.length_cons]
      have hcount' : p.count = q'.count := hp.count.trans hq'.count.symm
      rw [hstep]
      simp only [copied, hpop, potential, hlength, hcount', hsame]
      by_cases hsparse : p.isSparse = true
      · have hfew := (hp.isSparse_iff.mp hsparse).1
        rw [← hp.count, hcount', hsame] at hfew
        rw [if_pos hsparse, if_pos hsparse, resizeFactor]
        omega
      · rw [if_neg hsparse, if_neg hsparse]
        omega

theorem init_represents (capacity : Nat) : Represents (some (init capacity)) ([] : List α) :=
  ⟨_, rfl, init_holds capacity⟩

end Queue

/-- Over any calls, whatever the capacity it starts with, the ring buffer never
traps, hands the elements out first in first out, and iterates over those it
still has. -/
theorem queue_first_in_first_out (capacity : Nat) (calls : List (QueueCall α)) :
    queue.outputs (some (.init capacity)) calls = fifo.outputs [] calls ∧
      ∃ q, queue.run (some (.init capacity)) calls = some q ∧ q.count = (fifo.run [] calls).length ∧
        q.makeIterator = some (fifo.run [] calls) := by
  have hstep (state : Option (Queue α)) (xs : List α) (call : QueueCall α) (h : Queue.Represents state xs) :
      (queue.step state call).2 = (fifo.step xs call).2 ∧
        Queue.Represents (queue.step state call).1 (fifo.step xs call).1 :=
    ⟨(h.step call).1, (h.step call).2.1⟩
  obtain ⟨houtputs, q, hq, hholds⟩ := queue.run_simulates fifo hstep (Queue.init_represents capacity) calls
  exact ⟨houtputs, q, hq, hholds.count, hholds.makeIterator⟩

/-- However often it is resized, on average a call copies at most two elements. -/
theorem queue_copies_le (capacity : Nat) (calls : List (QueueCall α)) :
    queue.spent Queue.copied (some (.init capacity)) calls ≤ capacity + 2 * calls.length := by
  have hspent := queue.spent_le (I := fun state => ∃ xs, Queue.Represents state xs)
    (fun _ call ⟨_, h⟩ => ⟨_, (h.step call).2.1⟩) (fun _ call ⟨_, h⟩ => (h.step call).2.2)
    ⟨[], Queue.init_represents capacity⟩ calls
  have hinit : Queue.potential (some (Queue.init capacity : Queue α)) = capacity := by
    simp [Queue.potential, Queue.init]
  rw [hinit] at hspent
  exact Nat.le_of_add_right_le hspent

end Rx
