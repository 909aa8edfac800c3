import Mathlib.Data.List.Basic
import Mathlib.Data.List.Induction

/-! Rx operators as values: what the sink of an operator keeps between two
notifications, and what it forwards for each. Sequences live on one thread, so
a notification is handled completely before the next one arrives. -/

namespace Rx

variable {α β ε κ σ : Type*}

inductive Event (ε α : Type*)
  | next (element : α)
  | error (error : ε)
  | completed
  deriving DecidableEq

def create : List (Event ε α) → List (Event ε α)
  | [] => []
  | .next element :: events => .next element :: create events
  | .error error :: _ => [.error error]
  | .completed :: _ => [.completed]

namespace Event

def isError : Event ε α → Bool
  | .error _ => true
  | _ => false

def isCompleted : Event ε α → Bool
  | .completed => true
  | _ => false

end Event

/-- `flatMap` of sequences that emit all they have as soon as they are subscribed
to; `activeCount` of the inner ones have not completed. -/
def flatMapFrom (selector : α → List (Event ε β)) (activeCount : Nat) :
    List (Event ε α) → List (Event ε β)
  | [] => []
  | .next element :: events =>
    let inner := create (selector element)
    let forwarded := inner.filter fun event => !event.isCompleted
    if inner.any Event.isError then forwarded
    else
      forwarded ++
        flatMapFrom selector (if inner.any Event.isCompleted then activeCount else activeCount + 1) events
  | .error error :: _ => [.error error]
  | .completed :: _ => if activeCount = 0 then [.completed] else []

def flatMap (selector : α → List (Event ε β)) (events : List (Event ε α)) : List (Event ε β) :=
  flatMapFrom selector 0 events

theorem create_next (elements : List α) (events : List (Event ε α)) :
    create (elements.map .next ++ events) = elements.map .next ++ create events := by
  induction elements with
  | nil => rfl
  | cons element elements ih => simp only [List.map_cons, List.cons_append, create, ih]

/-- One element, and an inner sequence that ends. -/
theorem flatMap_single {selector : α → List (Event ε β)} {element : α} {elements : List β}
    {stop : Event ε β} (hstop : stop.isError = true ∨ stop.isCompleted = true)
    (h : selector element = elements.map .next ++ [stop]) :
    flatMap selector [.next element, .completed] = selector element := by
  have hcreate : create (selector element) = elements.map .next ++ [stop] := by
    rw [h, create_next]
    cases stop with
    | next _ => simp [Event.isError, Event.isCompleted] at hstop
    | error _ => rfl
    | completed => rfl
  have hforward : (elements.map (Event.next (ε := ε))).filter (fun event => !event.isCompleted) =
      elements.map .next := by simp [List.filter_eq_self, Event.isCompleted]
  cases stop with
  | next _ => simp [Event.isError, Event.isCompleted] at hstop
  | error _ =>
    simp only [flatMap, flatMapFrom, hcreate, List.filter_append, hforward]
    simp [h, Event.isError, Event.isCompleted]
  | completed =>
    simp only [flatMap, flatMapFrom, hcreate, List.filter_append, hforward]
    simp [h, Event.isError, Event.isCompleted]

def filter (predicate : α → Bool) (element : α) : Option α :=
  if predicate element then some element else none

@[simp] theorem filter_eq_some {p : α → Bool} {a b : α} :
    filter p a = some b ↔ p a = true ∧ a = b := by
  simp [filter]

/-- What an operator that remembers its last value keeps of a filtered sequence. -/
def latest (predicate : α → Bool) (elements : List α) : Option α :=
  (elements.filter predicate).getLast?

theorem latest_singleton (p : α → Bool) (a : α) : latest p [a] = filter p a := by
  by_cases h : p a = true <;> simp [latest, filter, h]

theorem latest_snoc (p : α → Bool) (l : List α) (a : α) :
    latest p (l ++ [a]) = (filter p a).or (latest p l) := by
  by_cases h : p a = true
  · simp [latest, filter, h, List.filter_append]
  · simp [latest, filter, h, List.filter_append]

theorem latest_eq_none_iff {p : α → Bool} {l : List α} :
    latest p l = none ↔ ∀ a ∈ l, p a = false := by
  simp [latest]

structure CombineLatest (α β : Type*) where
  first : Option α
  second : Option β
  deriving DecidableEq

namespace CombineLatest

def empty : CombineLatest α β := ⟨none, none⟩

def getResult (s : CombineLatest α β) : Option (α × β) :=
  s.first.bind fun a => s.second.map fun b => (a, b)

def nextFirst (s : CombineLatest α β) (a : α) : CombineLatest α β × Option (α × β) :=
  let s' := { s with first := some a }
  (s', s'.getResult)

def nextSecond (s : CombineLatest α β) (b : β) : CombineLatest α β × Option (α × β) :=
  let s' := { s with second := some b }
  (s', s'.getResult)

theorem getResult_eq_some {s : CombineLatest α β} {a : α} {b : β} :
    s.getResult = some (a, b) ↔ s.first = some a ∧ s.second = some b := by
  cases s with | mk first second => cases first <;> cases second <;> simp [getResult]

theorem getResult_eq_none {s : CombineLatest α β} :
    s.getResult = none ↔ s.first = none ∨ s.second = none := by
  cases s with | mk first second => cases first <;> cases second <;> simp [getResult]

end CombineLatest

structure WithLatestFrom (β : Type*) where
  latest : Option β
  deriving DecidableEq

namespace WithLatestFrom

def empty : WithLatestFrom β := ⟨none⟩

def second (s : WithLatestFrom β) (b : Option β) : WithLatestFrom β := ⟨b.or s.latest⟩

def first (s : WithLatestFrom β) : Option β := s.latest

end WithLatestFrom

/-- The sink of `flatMap`: the keys of the inner subscriptions still open. -/
structure FlatMap (κ : Type*) where
  group : List κ
  deriving DecidableEq

namespace FlatMap

variable [DecidableEq κ]

def empty : FlatMap κ := ⟨[]⟩

def subscribeInner (s : FlatMap κ) (key : κ) : FlatMap κ := ⟨s.group ++ [key]⟩

/-- A notification of the inner sequence `key`; dropped if that is not open. -/
def on (s : FlatMap κ) (key : κ) : Event ε α → FlatMap κ × Option (Event ε α)
  | .next a => (s, if key ∈ s.group then some (.next a) else none)
  -- an error disposes the whole group
  | .error e => if key ∈ s.group then (empty, some (.error e)) else (s, none)
  | .completed => (⟨s.group.erase key⟩, none)

theorem on_of_not_mem {s : FlatMap κ} {key : κ} (h : key ∉ s.group) (event : Event ε α) :
    s.on key event = (s, none) := by
  cases event with
  | next a => simp [on, h]
  | error e => simp [on, h]
  | completed => simp [on, List.erase_of_not_mem h]

/-- The same sink with other keys. -/
def map {κ' : Type*} (f : κ → κ') (s : FlatMap κ) : FlatMap κ' := ⟨s.group.map f⟩

theorem on_map {κ' : Type*} [DecidableEq κ'] {f : κ → κ'} (hf : Function.Injective f) (s : FlatMap κ)
    (key : κ) (event : Event ε α) :
    (s.map f).on (f key) event = ((s.on key event).1.map f, (s.on key event).2) := by
  have hmem : f key ∈ s.group.map f ↔ key ∈ s.group := List.mem_map_of_injective hf
  cases event with
  | next a => simp only [on, map, hmem]
  | error e =>
    by_cases h : key ∈ s.group
    · simp [on, map, hmem, h, empty]
    · simp [on, map, hmem, h]
  | completed => simp only [on, map, List.map_erase hf]

end FlatMap

/-- The sink of `retry`: the subscription to its source, if it still has one,
and the number of times it may subscribe again. -/
structure Retry (σ : Type*) where
  subscription : Option σ
  remaining : Nat
  deriving DecidableEq

namespace Retry

def moveNext (r : Retry σ) (source : σ) : Retry σ :=
  match r.remaining with
  -- the last error is passed on and ends the sequence
  | 0 => ⟨none, 0⟩
  | n + 1 => ⟨some source, n⟩

/-- `retry(maxAttemptCount)` repeats its source that many times in total. -/
def subscribe (maxAttemptCount : Nat) (source : σ) : Retry σ :=
  moveNext ⟨none, maxAttemptCount⟩ source

def map (f : σ → σ) (r : Retry σ) : Retry σ := { r with subscription := r.subscription.map f }

@[simp] theorem map_subscription (f : σ → σ) (r : Retry σ) :
    (r.map f).subscription = r.subscription.map f := rfl

@[simp] theorem map_remaining (f : σ → σ) (r : Retry σ) : (r.map f).remaining = r.remaining := rfl

theorem moveNext_subscription (r : Retry σ) (source : σ) :
    (r.moveNext source).subscription = if r.remaining = 0 then none else some source := by
  cases r with | mk subscription remaining => cases remaining <;> simp [moveNext]

theorem moveNext_remaining (r : Retry σ) (source : σ) :
    (r.moveNext source).remaining = r.remaining - 1 := by
  cases r with | mk subscription remaining => cases remaining <;> simp [moveNext]

end Retry

end Rx
