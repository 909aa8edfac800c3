import Reservation.Machine
import Reservation.RxOperators
import Mathlib.Data.Fintype.Card

/-! The sink of `combineLatest` for any number of sources. It counts the sources
with a value and those that are done, and reads the values when the count says so. -/

namespace Rx

variable {n : Nat} {α : Fin n → Type*} {β ε : Type*}

/-- `subscriptions` are those that have not been disposed. -/
structure CombineLatestSink (α : Fin n → Type*) where
  latestElement : (index : Fin n) → Option (α index) := fun _ => none
  hasValue : Fin n → Bool := fun _ => false
  isDone : Fin n → Bool := fun _ => false
  numberOfValues : Nat := 0
  numberOfDone : Nat := 0
  subscriptions : Fin n → Bool := fun _ => true
  disposed : Bool := false

namespace CombineLatestSink

def forwardOn (s : CombineLatestSink α) (event : Event ε β) : List (Event ε β) :=
  if s.disposed then [] else [event]

def dispose (s : CombineLatestSink α) : CombineLatestSink α :=
  { s with subscriptions := fun _ => false, disposed := true }

/-- The elements are unwrapped, which traps if there is none. -/
def getResult (resultSelector : ((index : Fin n) → α index) → Except ε β) (s : CombineLatestSink α) :
    Option (Except ε β) :=
  if h : ∀ index, (s.latestElement index).isSome then
    some (resultSelector fun index => (s.latestElement index).get (h index))
  else none

def allOthersDone (s : CombineLatestSink α) (index : Fin n) : Bool :=
  (List.finRange n).all fun i => i = index || s.isDone i

def setHasValue (s : CombineLatestSink α) (index : Fin n) : CombineLatestSink α :=
  if s.hasValue index then s
  else { s with hasValue := Function.update s.hasValue index true, numberOfValues := s.numberOfValues + 1 }

def next (resultSelector : ((index : Fin n) → α index) → Except ε β) (s : CombineLatestSink α)
    (index : Fin n) : Option (CombineLatestSink α × List (Event ε β)) :=
  let s := s.setHasValue index
  if s.numberOfValues = n then
    (s.getResult resultSelector).map fun
      | .ok result => (s, s.forwardOn (.next result))
      | .error error => (s.dispose, s.forwardOn (.error error))
  else if s.allOthersDone index then some (s.dispose, s.forwardOn .completed)
  else some (s, [])

def fail (s : CombineLatestSink α) (error : ε) : CombineLatestSink α × List (Event ε β) :=
  (s.dispose, s.forwardOn (.error error))

def done (s : CombineLatestSink α) (index : Fin n) : CombineLatestSink α × List (Event ε β) :=
  if s.isDone index then (s, [])
  else
    let s := { s with isDone := Function.update s.isDone index true, numberOfDone := s.numberOfDone + 1 }
    if s.numberOfDone = n then (s.dispose, s.forwardOn .completed) else (s, [])

/-- `on` of the observer of one source, whose own subscription ends first. -/
def on (resultSelector : ((index : Fin n) → α index) → Except ε β) (s : CombineLatestSink α)
    (index : Fin n) : Event ε (α index) → Option (CombineLatestSink α × List (Event ε β))
  | .next value =>
    { s with latestElement := Function.update s.latestElement index (some value) }.next resultSelector index
  | .error error => some ({ s with subscriptions := Function.update s.subscriptions index false }.fail error)
  | .completed => some ({ s with subscriptions := Function.update s.subscriptions index false }.done index)

end CombineLatestSink

def combineLatest (resultSelector : ((index : Fin n) → α index) → Except ε β) :
    Machine (Option (CombineLatestSink α)) ((index : Fin n) × Event ε (α index)) (Event ε β) where
  step
    | none, _ => (none, [])
    | some s, ⟨index, event⟩ =>
      if s.subscriptions index then
        match s.on resultSelector index event with
        | none => (none, [])
        | some (s', out) => (some s', out)
      else (some s, [])

/-- What `combineLatest` is for: the last element of each source. -/
structure CombineLatestLaw (α : Fin n → Type*) where
  latest : (index : Fin n) → Option (α index) := fun _ => none
  completed : Fin n → Bool := fun _ => false
  ended : Bool := false

def combineLatestLaw (resultSelector : ((index : Fin n) → α index) → Except ε β) :
    Machine (CombineLatestLaw α) ((index : Fin n) × Event ε (α index)) (Event ε β) where
  step law notification :=
    if law.ended ∨ law.completed notification.1 then (law, [])
    else
      match notification with
      | ⟨index, .next value⟩ =>
        let law := { law with latest := Function.update law.latest index (some value) }
        if h : ∀ i, (law.latest i).isSome then
          match resultSelector fun i => (law.latest i).get (h i) with
          | .ok result => (law, [.next result])
          | .error error => ({ law with ended := true }, [.error error])
        -- the elements that are missing will never come
        else if ∀ i, i ≠ index → law.completed i then ({ law with ended := true }, [.completed])
        else (law, [])
      | ⟨_, .error error⟩ => ({ law with ended := true }, [.error error])
      | ⟨index, .completed⟩ =>
        let law := { law with completed := Function.update law.completed index true }
        if ∀ i, law.completed i then ({ law with ended := true }, [.completed]) else (law, [])

namespace CombineLatestSink

theorem card_update {p : Fin n → Bool} {index : Fin n} (h : p index = false) :
    (Finset.univ.filter fun i => Function.update p index true i = true).card =
      (Finset.univ.filter fun i => p i = true).card + 1 := by
  have hinsert : (Finset.univ.filter fun i => Function.update p index true i = true) =
      insert index (Finset.univ.filter fun i => p i = true) := by
    ext i
    by_cases hi : i = index
    · subst hi
      simp
    · simp [hi]
  rw [hinsert, Finset.card_insert_of_notMem (by simp [h])]

theorem card_eq_iff {p : Fin n → Bool} :
    (Finset.univ.filter fun i => p i = true).card = n ↔ ∀ i, p i = true := by
  have huniv := Finset.card_eq_iff_eq_univ (Finset.univ.filter fun i => p i = true)
  rw [Fintype.card_fin] at huniv
  rw [huniv, Finset.eq_univ_iff_forall]
  simp

/-- The counters count, and the flags say what there is. -/
structure Holds (s : CombineLatestSink α) (law : CombineLatestLaw α) : Prop where
  latestElement : s.latestElement = law.latest
  hasValue : ∀ i, s.hasValue i = (law.latest i).isSome
  isDone : s.isDone = law.completed
  numberOfValues : s.numberOfValues = (Finset.univ.filter fun i => s.hasValue i = true).card
  numberOfDone : s.numberOfDone = (Finset.univ.filter fun i => s.isDone i = true).card
  subscriptions : ∀ i, s.subscriptions i = true ↔ ¬ (law.ended = true ∨ law.completed i = true)
  disposed : s.disposed = law.ended

def Represents (state : Option (CombineLatestSink α)) (law : CombineLatestLaw α) : Prop :=
  ∃ s, state = some s ∧ s.Holds law

variable {s : CombineLatestSink α} {law : CombineLatestLaw α}

theorem Holds.dispose (h : s.Holds law) : s.dispose.Holds { law with ended := true } :=
  ⟨h.latestElement, h.hasValue, h.isDone, h.numberOfValues, h.numberOfDone, by simp [CombineLatestSink.dispose],
    rfl⟩

theorem Holds.forwardOn (h : s.Holds law) (hended : law.ended = false) (event : Event ε β) :
    s.forwardOn event = [event] := by
  rw [CombineLatestSink.forwardOn, h.disposed, hended]
  rfl

theorem Holds.setHasValue (h : s.Holds law) (index : Fin n) (value : α index) :
    ({ s with latestElement := Function.update s.latestElement index (some value) }.setHasValue index).Holds
      { law with latest := Function.update law.latest index (some value) } := by
  have hlatest (i : Fin n) : Function.update s.hasValue index true i =
      (Function.update law.latest index (some value) i).isSome := by
    by_cases hi : i = index
    · subst hi
      simp
    · simp [hi, h.hasValue i]
  rw [CombineLatestSink.setHasValue]
  by_cases hvalue : s.hasValue index = true
  · have hsame : Function.update s.hasValue index true = s.hasValue := by
      rw [← hvalue, Function.update_eq_self]
    rw [if_pos hvalue]
    refine ⟨by rw [h.latestElement], fun i => ?_, h.isDone, h.numberOfValues, h.numberOfDone, h.subscriptions,
      h.disposed⟩
    rw [← hlatest i, hsame]
  · rw [if_neg hvalue]
    refine ⟨by rw [h.latestElement], hlatest, h.isDone, ?_, h.numberOfDone, h.subscriptions, h.disposed⟩
    rw [card_update (Bool.eq_false_iff.mpr hvalue), h.numberOfValues]

theorem Holds.all_values (h : s.Holds law) : s.numberOfValues = n ↔ ∀ i, (law.latest i).isSome = true := by
  rw [h.numberOfValues, card_eq_iff]
  exact forall_congr' fun i => by rw [h.hasValue i]

theorem Holds.all_done (h : s.Holds law) : s.numberOfDone = n ↔ ∀ i, law.completed i = true := by
  rw [h.numberOfDone, card_eq_iff, h.isDone]

theorem Holds.allOthersDone (h : s.Holds law) (index : Fin n) :
    s.allOthersDone index = true ↔ ∀ i, i ≠ index → law.completed i = true := by
  rw [CombineLatestSink.allOthersDone, List.all_eq_true, h.isDone]
  constructor
  · intro hall i hi
    simpa [hi] using hall i (List.mem_finRange i)
  · intro hall i _
    by_cases hi : i = index
    · simp [hi]
    · simp [hall i hi]

variable {resultSelector : ((index : Fin n) → α index) → Except ε β}

/-- A count that says that every source has a value is right. -/
theorem Holds.getResult (h : s.Holds law) (hall : ∀ i, (law.latest i).isSome = true) :
    s.getResult resultSelector = some (resultSelector fun i => (law.latest i).get (hall i)) := by
  obtain ⟨latestElement, _, _, _, _, _, _⟩ := s
  obtain rfl : latestElement = law.latest := h.latestElement
  rw [CombineLatestSink.getResult, dif_pos hall]

theorem Holds.next (h : s.Holds law) {index : Fin n}
    (hopen : ¬ (law.ended = true ∨ law.completed index = true))
    (value : α index) :
    ∃ s', s.on resultSelector index (.next value) =
        some (s', ((combineLatestLaw resultSelector).step law ⟨index, .next value⟩).2) ∧
      s'.Holds ((combineLatestLaw resultSelector).step law ⟨index, .next value⟩).1 := by
  have hended : law.ended = false := Bool.eq_false_iff.mpr fun hended => hopen (.inl hended)
  have hnext := h.setHasValue index value
  simp only [combineLatestLaw, if_neg hopen]
  rw [CombineLatestSink.on, CombineLatestSink.next]
  generalize CombineLatestSink.setHasValue _ index = s' at hnext
  by_cases hall : ∀ i, (Function.update law.latest index (some value) i).isSome = true
  · rw [if_pos (hnext.all_values.mpr hall), hnext.getResult hall, dif_pos hall, Option.map_some]
    cases resultSelector fun i => (Function.update law.latest index (some value) i).get (hall i) with
    | ok result => exact ⟨s', by simp only [hnext.forwardOn hended], hnext⟩
    | error error => exact ⟨s'.dispose, by simp only [hnext.forwardOn hended], hnext.dispose⟩
  · rw [if_neg fun hcount => hall (hnext.all_values.mp hcount), dif_neg hall]
    by_cases hothers : ∀ i, i ≠ index → law.completed i = true
    · rw [if_pos ((hnext.allOthersDone index).mpr hothers), if_pos hothers]
      exact ⟨s'.dispose, by rw [hnext.forwardOn hended], hnext.dispose⟩
    · rw [if_neg fun hdone => hothers ((hnext.allOthersDone index).mp hdone), if_neg hothers]
      exact ⟨s', rfl, hnext⟩

theorem Holds.complete (h : s.Holds law) {index : Fin n} (hdone : law.completed index = false) :
    Holds { s with
      subscriptions := Function.update s.subscriptions index false
      isDone := Function.update s.isDone index true
      numberOfDone := s.numberOfDone + 1 }
      { law with completed := Function.update law.completed index true } := by
  refine ⟨h.latestElement, h.hasValue, by rw [h.isDone], h.numberOfValues, ?_, fun i => ?_, h.disposed⟩
  · rw [card_update (by rw [h.isDone]; exact hdone), h.numberOfDone]
  · by_cases hi : i = index
    · subst hi
      simp
    · simpa [hi] using h.subscriptions i

theorem Holds.completed (h : s.Holds law) {index : Fin n}
    (hopen : ¬ (law.ended = true ∨ law.completed index = true)) :
    ∃ s', s.on resultSelector index .completed =
        some (s', ((combineLatestLaw resultSelector).step law ⟨index, .completed⟩).2) ∧
      s'.Holds ((combineLatestLaw resultSelector).step law ⟨index, .completed⟩).1 := by
  have hended : law.ended = false := Bool.eq_false_iff.mpr fun hended => hopen (.inl hended)
  have hdone : law.completed index = false := Bool.eq_false_iff.mpr fun hdone => hopen (.inr hdone)
  have hnext := h.complete hdone
  simp only [combineLatestLaw, if_neg hopen]
  rw [CombineLatestSink.on, CombineLatestSink.done, h.isDone, hdone, if_neg Bool.false_ne_true]
  rw [h.isDone] at hnext
  by_cases hall : ∀ i, Function.update law.completed index true i = true
  · rw [if_pos (hnext.all_done.mpr hall), if_pos hall]
    exact ⟨_, by rw [hnext.forwardOn hended], hnext.dispose⟩
  · rw [if_neg fun hcount => hall (hnext.all_done.mp hcount), if_neg hall]
    exact ⟨_, rfl, hnext⟩

theorem Holds.on (h : s.Holds law) (resultSelector : ((index : Fin n) → α index) → Except ε β)
    {index : Fin n} (hopen : ¬ (law.ended = true ∨ law.completed index = true)) (event : Event ε (α index)) :
    ∃ s', s.on resultSelector index event =
        some (s', ((combineLatestLaw resultSelector).step law ⟨index, event⟩).2) ∧
      s'.Holds ((combineLatestLaw resultSelector).step law ⟨index, event⟩).1 := by
  cases event with
  | next value => exact h.next hopen value
  | error error =>
    have hended : law.ended = false := Bool.eq_false_iff.mpr fun hended => hopen (.inl hended)
    have hforward := h.forwardOn hended (Event.error error : Event ε β)
    simp only [combineLatestLaw, if_neg hopen]
    refine ⟨s.dispose, ?_, h.dispose⟩
    rw [← hforward]
    rfl
  | completed => exact h.completed hopen

theorem Represents.step {state : Option (CombineLatestSink α)} (h : Represents state law)
    (resultSelector : ((index : Fin n) → α index) → Except ε β)
    (notification : (index : Fin n) × Event ε (α index)) :
    ((combineLatest resultSelector).step state notification).2 =
        ((combineLatestLaw resultSelector).step law notification).2 ∧
      Represents ((combineLatest resultSelector).step state notification).1
        ((combineLatestLaw resultSelector).step law notification).1 := by
  obtain ⟨s, rfl, hs⟩ := h
  obtain ⟨index, event⟩ := notification
  by_cases hopen : law.ended = true ∨ law.completed index = true
  · have hsubscription : ¬ s.subscriptions index = true := fun hs' => (hs.subscriptions index).mp hs' hopen
    simp only [combineLatest, combineLatestLaw, if_neg hsubscription, if_pos hopen]
    exact ⟨trivial, s, rfl, hs⟩
  · obtain ⟨s', hon, hs'⟩ := hs.on resultSelector hopen event
    simp only [combineLatest, if_pos ((hs.subscriptions index).mpr hopen), hon]
    exact ⟨trivial, s', rfl, hs'⟩

theorem empty_represents : Represents (some {}) ({} : CombineLatestLaw α) :=
  ⟨_, rfl, rfl, fun _ => rfl, rfl, by simp, by simp, by simp, rfl⟩

end CombineLatestSink

/-- Whatever the sources do, the sink of `combineLatest` never unwraps an element
that is missing, combines the last elements of all sources whenever one of them has
a new one, and ends when the abstract one does. -/
theorem combineLatest_sink_combines (resultSelector : ((index : Fin n) → α index) → Except ε β)
    (notifications : List ((index : Fin n) × Event ε (α index))) :
    (combineLatest resultSelector).outputs (some {}) notifications =
        (combineLatestLaw resultSelector).outputs {} notifications ∧
      ∃ s, (combineLatest resultSelector).run (some {}) notifications = some s ∧
        s.latestElement = ((combineLatestLaw resultSelector).run {} notifications).latest ∧
        s.disposed = ((combineLatestLaw resultSelector).run {} notifications).ended := by
  obtain ⟨houtputs, s, hs, hholds⟩ := (combineLatest resultSelector).run_simulates
    (combineLatestLaw resultSelector) (fun _ _ notification h => h.step resultSelector notification)
    CombineLatestSink.empty_represents notifications
  exact ⟨houtputs, s, hs, hholds.latestElement, hholds.disposed⟩

end Rx
