import Reservation.RxOperators
import Reservation.AsyncLock
import Mathlib.Algebra.BigOperators.Group.List.Basic
import Mathlib.Algebra.Ring.Nat

/-! The sink of `retry(maxAttemptCount)`, on top of its gate. The source may fail
as soon as it is subscribed to, in the middle of the work that subscribes, and it
may be a `retry` itself, which the sink takes apart into its own loop. -/

namespace Rx

variable {α ε : Type*}

inductive TailRecursiveSinkCommand
  | moveNext
  | dispose
  deriving DecidableEq

/-- An iterator that has a source `generator` more times. The source is a `retry`
of a `retry` and so on, with the counts `nested`, of one that is none. -/
structure SequenceGenerator where
  generator : Nat
  nested : List Nat
  remaining : Option Nat
  deriving DecidableEq

namespace SequenceGenerator

/-- How many attempts are left in an iterator. -/
def attempts (g : SequenceGenerator) : Nat := g.generator * g.nested.prod

/-- The turns of the loop that one attempt at a source can take, to take it apart. -/
def cost : List Nat → Nat
  | [] => 1
  | count :: nested => count * cost nested + 2

def weight (g : SequenceGenerator) : Nat := g.generator * cost g.nested + 1

end SequenceGenerator

/-- Attempts are numbered from one. `subscription` is the attempt the serial
disposable holds, and `forwarded` is what the observer has got. -/
structure CatchSequenceSink (ε α : Type*) where
  generators : List SequenceGenerator
  isDisposed : Bool := false
  disposed : Bool := false
  lastError : Option ε := none
  attempts : Nat := 0
  subscription : Option Nat := none
  subscriptionDisposed : Bool := false
  forwarded : List (Event ε α) := []

namespace CatchSequenceSink

/-- `run` is called with an iterator that repeats the source. -/
def retry (maxAttemptCount : Nat) (nested : List Nat) : CatchSequenceSink ε α :=
  { generators := [⟨maxAttemptCount, nested, none⟩] }

def forwardOn (s : CatchSequenceSink ε α) (event : Event ε α) : CatchSequenceSink ε α :=
  if s.disposed then s else { s with forwarded := s.forwarded ++ [event] }

def dispose (s : CatchSequenceSink ε α) : Body (CatchSequenceSink ε α) TailRecursiveSinkCommand :=
  .dispose { s with disposed := true, subscription := none, subscriptionDisposed := true } fun s =>
    .invoke s .dispose .done

def done (s : CatchSequenceSink ε α) : Body (CatchSequenceSink ε α) TailRecursiveSinkCommand :=
  match s.lastError with
  | some lastError => (s.forwardOn (.error lastError)).dispose
  | none => (s.forwardOn .completed).dispose

/-- The notifications of a source up to the one that ends it. -/
def on : List (Event ε α) → CatchSequenceSink ε α → Body (CatchSequenceSink ε α) TailRecursiveSinkCommand
  | [], s => .done s
  | .next element :: events, s => on events (s.forwardOn (.next element))
  | .error error :: _, s => .invoke { s with lastError := some error } .moveNext .done
  | .completed :: _, s => (s.forwardOn .completed).dispose

/-- What the loop of `moveNextCommand` comes to. -/
inductive Next
  | disposed
  | exhausted
  | next (generators : List SequenceGenerator)

/-- The iterator goes back on the stack, unless it is known to be at its end. -/
def putBack (e : Nat) (nested : List Nat) (left : Option Nat) (generators : List SequenceGenerator) :
    List SequenceGenerator :=
  match left with
  | some knownOriginalLeft =>
    if 1 ≤ knownOriginalLeft - 1 then ⟨e, nested, some (knownOriginalLeft - 1)⟩ :: generators else generators
  | none => ⟨e, nested, none⟩ :: generators

theorem putBack_weight (e : Nat) (nested : List Nat) (left : Option Nat)
    (generators : List SequenceGenerator) :
    ((putBack e nested left generators).map SequenceGenerator.weight).sum ≤
      e * SequenceGenerator.cost nested + 1 + (generators.map SequenceGenerator.weight).sum := by
  cases left with
  | none => exact Nat.le_refl _
  | some knownOriginalLeft =>
    rw [putBack]
    split
    · exact Nat.le_refl _
    · exact Nat.le_add_left _ _

def moveNextGenerator (isDisposed : Bool) : List SequenceGenerator → Next
  | [] => .exhausted
  | ⟨e, nested, left⟩ :: generators =>
    if isDisposed then .disposed
    else
      match e, nested with
      | 0, _ => moveNextGenerator isDisposed generators
      | e + 1, [] => .next (putBack e [] left generators)
      -- `extract` finds a `retry`
      | e + 1, count :: rest =>
        moveNextGenerator isDisposed (⟨count, rest, none⟩ :: putBack e (count :: rest) left generators)
termination_by generators => (generators.map SequenceGenerator.weight).sum
decreasing_by
  · simp [SequenceGenerator.weight]
  · have hputBack := putBack_weight e (count :: rest) left generators
    simp only [List.map_cons, List.sum_cons, SequenceGenerator.weight, SequenceGenerator.cost] at hputBack ⊢
    rw [Nat.succ_mul]
    omega

/-- `source` has what each attempt gives as soon as it is subscribed to. -/
def invoke (source : Nat → List (Event ε α)) :
    TailRecursiveSinkCommand → CatchSequenceSink ε α → Body (CatchSequenceSink ε α) TailRecursiveSinkCommand
  | .dispose, s => .done { s with isDisposed := true, generators := [] }
  | .moveNext, s =>
    match moveNextGenerator s.isDisposed s.generators with
    | .disposed => .done s
    | .exhausted => { s with generators := [] }.done
    | .next generators =>
      on (source (s.attempts + 1)) { s with
        generators
        attempts := s.attempts + 1
        subscription := if s.subscriptionDisposed then none else some (s.attempts + 1) }

end CatchSequenceSink

inductive CatchSequenceCall (ε α : Type*)
  | on (attempt : Nat) (event : Event ε α)
  | dispose
  deriving DecidableEq

abbrev CatchSequence (ε α : Type*) := Gated (CatchSequenceSink ε α) TailRecursiveSinkCommand

namespace CatchSequence

variable (source : Nat → List (Event ε α)) (fuel depth : Nat)

def run (maxAttemptCount : Nat) (nested : List Nat) : Option (CatchSequence ε α) :=
  Gated.invoke (CatchSequenceSink.invoke source) fuel depth ⟨{}, .retry maxAttemptCount nested, []⟩ .moveNext

/-- A later notification of an attempt is dropped unless it is the present one;
the subscriber may dispose at any time. -/
def call (g : CatchSequence ε α) : CatchSequenceCall ε α → Option (CatchSequence ε α)
  | .on attempt event =>
    if g.invocable.subscription = some attempt then
      Gated.execute (Gated.invoke (CatchSequenceSink.invoke source) fuel depth) g
        (CatchSequenceSink.on [event] g.invocable)
    else some g
  | .dispose => Gated.execute (Gated.invoke (CatchSequenceSink.invoke source) fuel depth) g g.invocable.dispose

def callAll : CatchSequence ε α → List (CatchSequenceCall ε α) → Option (CatchSequence ε α)
  | g, [] => some g
  | g, c :: calls => (call source fuel depth g c).bind fun g => callAll g calls

end CatchSequence

/-- What a source gives at once: its elements, and how it ends if it does, by an
error or by completing. -/
def atOnce : List (Event ε α) → List α × Option (Option ε)
  | [] => ([], none)
  | .next element :: events => (element :: (atOnce events).1, (atOnce events).2)
  | .error error :: _ => ([], some (some error))
  | .completed :: _ => ([], some none)

def Event.stop : Option ε → Event ε α
  | some lastError => .error lastError
  | none => .completed

/-- What `retry` is for: to subscribe again, `remaining` times at most, as long as
the attempts fail at once. -/
def tryAgain (source : Nat → List (Event ε α)) : Nat → Nat → Option ε → Retry Nat × List (Event ε α)
  | 0, _, lastError => (⟨none, 0⟩, [.stop lastError])
  | remaining + 1, attempts, _ =>
    let given := atOnce (source (attempts + 1))
    let elements := given.1.map .next
    match given.2 with
    | none => (⟨some (attempts + 1), remaining⟩, elements)
    | some none => (⟨none, 0⟩, elements ++ [.completed])
    | some (some error) =>
      let rest := tryAgain source remaining (attempts + 1) (some error)
      (rest.1, elements ++ rest.2)

def retryLaw (source : Nat → List (Event ε α)) : Machine (Retry Nat) (CatchSequenceCall ε α) (Event ε α) where
  step
    | r, .on attempt event =>
      if r.subscription = some attempt then
        match event with
        | .next element => (r, [.next element])
        | .error error => tryAgain source r.remaining attempt (some error)
        | .completed => (⟨none, 0⟩, [.completed])
      else (r, [])
    | _, .dispose => (⟨none, 0⟩, [])

namespace CatchSequenceSink

/-- The sink is subscribed to an attempt, or about to be. -/
structure Ready (s : CatchSequenceSink ε α) (remaining attempts : Nat) : Prop where
  generators : (s.generators.map SequenceGenerator.attempts).sum = remaining
  iterators : ∀ g ∈ s.generators, g.remaining = none
  isDisposed : s.isDisposed = false
  disposed : s.disposed = false
  subscriptionDisposed : s.subscriptionDisposed = false
  attempts : s.attempts = attempts

/-- The sink agrees with an abstract `retry`. -/
def Agrees (s : CatchSequenceSink ε α) (faulted : Bool) (r : Retry Nat) : Prop :=
  s.subscription = r.subscription ∧
    match r.subscription with
    | some attempt => faulted = false ∧ s.Ready r.remaining attempt
    | none => faulted = true

variable {s : CatchSequenceSink ε α} {source : Nat → List (Event ε α)}

theorem forwardOn_of_not_disposed (h : s.disposed = false) (event : Event ε α) :
    s.forwardOn event = { s with forwarded := s.forwarded ++ [event] } := by
  simp only [forwardOn, h, Bool.false_eq_true, if_false]

/-- The sink after its own `dispose`. -/
def ended (s : CatchSequenceSink ε α) : CatchSequenceSink ε α :=
  { s with disposed := true, subscription := none, subscriptionDisposed := true }

theorem execute_dispose (w : Work (CatchSequenceSink ε α) TailRecursiveSinkCommand) :
    w.execute s.dispose = ⟨s.ended, [], true⟩ := rfl

theorem execute_done (h : s.disposed = false) (w : Work (CatchSequenceSink ε α) TailRecursiveSinkCommand) :
    w.execute s.done = ⟨{ s.ended with forwarded := s.forwarded ++ [.stop s.lastError] }, [], true⟩ := by
  rw [done]
  cases s.lastError with
  | none =>
    rw [execute_dispose, forwardOn_of_not_disposed h]
    rfl
  | some lastError =>
    rw [execute_dispose, forwardOn_of_not_disposed h]
    rfl

/-- What the notifications of a source leave behind. -/
def received (s : CatchSequenceSink ε α) (given : List α × Option (Option ε)) :
    Work (CatchSequenceSink ε α) TailRecursiveSinkCommand :=
  let s := { s with forwarded := s.forwarded ++ given.1.map .next }
  match given.2 with
  | none => ⟨s, [], false⟩
  | some none => ⟨{ s.ended with forwarded := s.forwarded ++ [.completed] }, [], true⟩
  | some (some error) => ⟨{ s with lastError := some error }, [.moveNext], false⟩

theorem execute_on (h : s.disposed = false) (s' : CatchSequenceSink ε α) (events : List (Event ε α)) :
    Work.execute ⟨s', [], false⟩ (on events s) = s.received (atOnce events) := by
  induction events generalizing s with
  | nil => simp [on, Work.execute, received, atOnce]
  | cons event events ih =>
    cases event with
    | next element =>
      have hnext : (s.forwardOn (.next element)).disposed = false := by
        rw [forwardOn_of_not_disposed h]
        exact h
      rw [on, ih hnext, forwardOn_of_not_disposed h]
      simp [received, atOnce, ended]
    | error error => simp [on, Work.execute, Work.accept, received, atOnce]
    | completed =>
      rw [on, execute_dispose, forwardOn_of_not_disposed h]
      simp [received, atOnce, ended]

/-- The loop of `moveNextCommand` finds one of the attempts that are left, however
deep, or none if none are left. -/
theorem moveNextGenerator_cases (generators : List SequenceGenerator)
    (hiterators : ∀ g ∈ generators, g.remaining = none) :
    (moveNextGenerator false generators = .exhausted ∧
        (generators.map SequenceGenerator.attempts).sum = 0) ∨
      ∃ rest, moveNextGenerator false generators = .next rest ∧ (∀ g ∈ rest, g.remaining = none) ∧
        (generators.map SequenceGenerator.attempts).sum = (rest.map SequenceGenerator.attempts).sum + 1 := by
  fun_induction moveNextGenerator false generators with
  | case1 => exact .inl ⟨rfl, rfl⟩
  | case2 e nested left generators hdisposed => cases hdisposed
  | case3 nested left generators _ ih =>
    have hsum : ((⟨0, nested, left⟩ :: generators).map SequenceGenerator.attempts).sum =
        (generators.map SequenceGenerator.attempts).sum := by
      simp [SequenceGenerator.attempts]
    rw [hsum]
    exact ih fun g hg => hiterators g (List.mem_cons_of_mem _ hg)
  | case4 left generators _ e =>
    obtain rfl : left = none := hiterators _ List.mem_cons_self
    refine .inr ⟨_, rfl, ?_, ?_⟩
    · exact List.forall_mem_cons.mpr ⟨rfl, fun g hg => hiterators g (List.mem_cons_of_mem _ hg)⟩
    · simp [putBack, SequenceGenerator.attempts, Nat.add_right_comm]
  | case5 left generators _ e count rest ih =>
    obtain rfl : left = none := hiterators _ List.mem_cons_self
    have hsum : ((⟨e + 1, count :: rest, none⟩ :: generators).map SequenceGenerator.attempts).sum =
        ((⟨count, rest, none⟩ :: putBack e (count :: rest) none generators).map
          SequenceGenerator.attempts).sum := by
      simp only [putBack, List.map_cons, List.sum_cons, SequenceGenerator.attempts, List.prod_cons]
      rw [Nat.succ_mul, Nat.add_comm (e * _), Nat.add_assoc]
    rw [hsum]
    refine ih (List.forall_mem_cons.mpr ⟨rfl, List.forall_mem_cons.mpr ⟨rfl, fun g hg => ?_⟩⟩)
    exact hiterators g (List.mem_cons_of_mem _ hg)

/-- The sink when it subscribes again. -/
def subscribed (s : CatchSequenceSink ε α) (generators : List SequenceGenerator) (attempts : Nat) :
    CatchSequenceSink ε α :=
  { s with generators, attempts, subscription := some attempts }

theorem invoke_exhausted {attempts : Nat} (h : s.Ready 0 attempts) :
    invoke source .moveNext s = { s with generators := [] }.done := by
  rcases moveNextGenerator_cases s.generators h.iterators with ⟨hexhausted, _⟩ | ⟨rest, _, _, hsum⟩
  · simp only [invoke, h.isDisposed, hexhausted]
  · rw [h.generators] at hsum
    cases hsum

theorem invoke_next (source : Nat → List (Event ε α)) {remaining attempts : Nat}
    (h : s.Ready (remaining + 1) attempts) :
    ∃ generators, invoke source .moveNext s = on (source (attempts + 1)) (s.subscribed generators (attempts + 1)) ∧
      (s.subscribed generators (attempts + 1)).Ready remaining (attempts + 1) := by
  rcases moveNextGenerator_cases s.generators h.iterators with ⟨_, hsum⟩ | ⟨rest, hnext, hiterators, hsum⟩
  · rw [h.generators] at hsum
    cases hsum
  · have hremaining : (rest.map SequenceGenerator.attempts).sum = remaining := by
      rw [h.generators] at hsum
      exact (Nat.succ.inj hsum).symm
    refine ⟨rest, ?_, hremaining, hiterators, h.isDisposed, h.disposed, h.subscriptionDisposed, rfl⟩
    simp only [invoke, CatchSequenceSink.subscribed, h.isDisposed, hnext, h.attempts, h.subscriptionDisposed,
      Bool.false_eq_true, if_false]

/-- One command is done in one round, and what it has scheduled comes after it. -/
theorem rounds_command (command : TailRecursiveSinkCommand) (fuel : Nat) :
    Work.rounds (invoke source) (fuel + 1) ⟨s, [command], false⟩ =
      (Work.rounds (invoke source) fuel (Work.execute ⟨s, [], false⟩ (invoke source command s))).map
        fun result => (command :: result.1, result.2) := rfl

theorem rounds_nil {faulted : Bool} {fuel : Nat} (hfuel : 0 < fuel) :
    Work.rounds (invoke source) fuel ⟨s, [], faulted⟩ = some ([], ⟨s, [], faulted⟩) := by
  cases fuel with
  | zero => cases hfuel
  | succ fuel => rfl

theorem rounds_moveNext (source : Nat → List (Event ε α)) {remaining attempts fuel : Nat}
    (h : s.Ready remaining attempts) (hfuel : remaining + 2 ≤ fuel) :
    ∃ commands w, Work.rounds (invoke source) fuel ⟨s, [.moveNext], false⟩ = some (commands, w) ∧
      w.invocable.forwarded = s.forwarded ++ (tryAgain source remaining attempts s.lastError).2 ∧
      w.invocable.Agrees w.faulted (tryAgain source remaining attempts s.lastError).1 ∧
      w.invocable.attempts ≤ attempts + remaining := by
  obtain ⟨fuel, rfl⟩ : ∃ n, fuel = n + 1 := Nat.exists_eq_succ_of_ne_zero (by omega)
  rw [rounds_command]
  induction remaining generalizing s attempts fuel with
  | zero =>
    have hdone := execute_done (s := { s with generators := [] }) h.disposed ⟨s, [], false⟩
    rw [invoke_exhausted h, hdone, rounds_nil (by omega)]
    exact ⟨_, _, rfl, rfl, ⟨rfl, rfl⟩, Nat.le_of_eq h.attempts⟩
  | succ remaining ih =>
    obtain ⟨generators, hinvoke, hnext⟩ := invoke_next source h
    rw [hinvoke, execute_on hnext.disposed, received, tryAgain]
    cases hgiven : (atOnce (source (attempts + 1))).2 with
    | none =>
      rw [rounds_nil (by omega)]
      refine ⟨_, _, rfl, rfl, ⟨rfl, rfl, ?_⟩, ?_⟩
      · exact ⟨hnext.generators, hnext.iterators, hnext.isDisposed, hnext.disposed, hnext.subscriptionDisposed,
          hnext.attempts⟩
      · exact Nat.add_le_add_left (Nat.succ_pos remaining) attempts
    | some stop =>
      cases stop with
      | none =>
        rw [rounds_nil (by omega)]
        refine ⟨_, _, rfl, ?_, ⟨rfl, rfl⟩, ?_⟩
        · exact List.append_assoc _ _ _
        · exact Nat.add_le_add_left (Nat.succ_pos remaining) attempts
      | some error =>
        -- the failed attempt has scheduled the next one
        obtain ⟨fuel, rfl⟩ : ∃ n, fuel = n + 1 := Nat.exists_eq_succ_of_ne_zero (by omega)
        have hfailed : Ready { s.subscribed generators (attempts + 1) with
            forwarded := s.forwarded ++ (atOnce (source (attempts + 1))).1.map .next
            lastError := some error } remaining (attempts + 1) :=
          ⟨hnext.generators, hnext.iterators, hnext.isDisposed, hnext.disposed, hnext.subscriptionDisposed,
            hnext.attempts⟩
        obtain ⟨commands, w, hrounds, hforwarded, hagrees, hattempts⟩ := ih hfailed fuel (by omega)
        refine ⟨.moveNext :: commands, w, ?_, ?_, hagrees, by omega⟩
        · exact congrArg
            (Option.map fun result => (TailRecursiveSinkCommand.moveNext :: result.1, result.2)) hrounds
        · rw [hforwarded, List.append_assoc]

end CatchSequenceSink

namespace CatchSequence

variable {source : Nat → List (Event ε α)} {g : CatchSequence ε α} {r : Retry Nat}

/-- The gate is free and the sink agrees with an abstract `retry`; `maxAttemptCount`
bounds the attempts. -/
structure Represents (g : CatchSequence ε α) (r : Retry Nat) (out : List (Event ε α)) (maxAttemptCount : Nat) :
    Prop where
  idle : ∃ faulted, Gated.Idle g g.invocable faulted ∧ g.invocable.Agrees faulted r
  forwarded : g.invocable.forwarded = out
  attempts : g.invocable.attempts ≤ maxAttemptCount
  remaining : ∀ attempt, r.subscription = some attempt → attempt + r.remaining ≤ maxAttemptCount

theorem tryAgain_remaining {remaining attempts attempt : Nat} {lastError : Option ε}
    (h : (tryAgain source remaining attempts lastError).1.subscription = some attempt) :
    attempt + (tryAgain source remaining attempts lastError).1.remaining = attempts + remaining := by
  induction remaining generalizing attempts lastError with
  | zero => cases h
  | succ remaining ih =>
    rw [tryAgain] at h ⊢
    cases hgiven : (atOnce (source (attempts + 1))).2 with
    | none =>
      simp only [hgiven] at h ⊢
      obtain rfl := Option.some.inj h
      exact Nat.add_right_comm attempts 1 remaining
    | some stop =>
      cases stop with
      | none =>
        simp only [hgiven] at h
        cases h
      | some error =>
        simp only [hgiven] at h ⊢
        rw [ih h]
        exact Nat.add_right_comm attempts 1 remaining

theorem moveNext_represents (source : Nat → List (Event ε α)) {s : CatchSequenceSink ε α}
    (h : Gated.Idle g s false) {fuel remaining attempts maxAttemptCount : Nat} (depth : Nat)
    (hs : s.Ready remaining attempts) (hfuel : remaining + 1 ≤ fuel)
    (hmax : attempts + remaining ≤ maxAttemptCount) :
    ∃ g', Gated.invoke (CatchSequenceSink.invoke source) fuel (depth + 2) g .moveNext = some g' ∧
      Represents g' (tryAgain source remaining attempts s.lastError).1
        (s.forwarded ++ (tryAgain source remaining attempts s.lastError).2) maxAttemptCount := by
  obtain ⟨commands, w, hrounds, hforwarded, hagrees, hattempts⟩ :=
    CatchSequenceSink.rounds_moveNext source hs (Nat.succ_le_succ hfuel)
  have houtcome := h.invoke (CatchSequenceSink.invoke source) fuel depth .moveNext
  rw [hrounds] at houtcome
  generalize Gated.invoke (CatchSequenceSink.invoke source) fuel (depth + 2) g .moveNext = result at houtcome
  cases houtcome with
  | @finished g' _ _ hidle _ =>
    refine ⟨g', rfl, ⟨w.faulted, ?_, ?_⟩, ?_, ?_, fun attempt hattempt => ?_⟩
    · exact hidle.invocable ▸ hidle
    · exact hidle.invocable ▸ hagrees
    · rw [hidle.invocable, hforwarded]
    · rw [hidle.invocable]
      exact Nat.le_trans hattempts hmax
    · rw [tryAgain_remaining hattempt]
      exact hmax

theorem run_represents (source : Nat → List (Event ε α)) (fuel depth maxAttemptCount : Nat) (nested : List Nat)
    (hfuel : maxAttemptCount * nested.prod + 1 ≤ fuel) :
    ∃ g, run source fuel (depth + 2) maxAttemptCount nested = some g ∧
      Represents g (tryAgain source (maxAttemptCount * nested.prod) 0 none).1
        (tryAgain source (maxAttemptCount * nested.prod) 0 none).2 (maxAttemptCount * nested.prod) := by
  have hidle : Gated.Idle (⟨{}, .retry maxAttemptCount nested, []⟩ : CatchSequence ε α)
      (.retry maxAttemptCount nested) false :=
    ⟨rfl, rfl, rfl, Queue.init_holds 0⟩
  have hready : (CatchSequenceSink.retry maxAttemptCount nested : CatchSequenceSink ε α).Ready
      (maxAttemptCount * nested.prod) 0 :=
    ⟨rfl, by simp [CatchSequenceSink.retry], rfl, rfl, rfl, rfl⟩
  exact moveNext_represents source hidle depth hready hfuel (Nat.le_of_eq (Nat.zero_add _))

/-- After the sink's own `dispose` its gate takes nothing. -/
theorem execute_dispose {s : CatchSequenceSink ε α} {faulted : Bool} (h : Gated.Idle g s faulted)
    (source : Nat → List (Event ε α)) (fuel depth : Nat) (s' : CatchSequenceSink ε α) :
    Gated.execute (Gated.invoke (CatchSequenceSink.invoke source) fuel (depth + 1)) g s'.dispose =
        some { g with invocable := s'.ended, lock := g.lock.dispose } ∧
      Gated.Idle { g with invocable := s'.ended, lock := g.lock.dispose } s'.ended true := by
  have hidle : Gated.Idle { g with invocable := s'.ended, lock := g.lock.dispose } s'.ended true :=
    ⟨rfl, h.isExecuting, rfl, Queue.init_holds 0⟩
  refine ⟨?_, hidle⟩
  have hinvoke := hidle.invoke_faulted (CatchSequenceSink.invoke source) fuel depth .dispose
  rw [CatchSequenceSink.dispose, Gated.execute, Gated.execute]
  change Option.bind (Gated.invoke (CatchSequenceSink.invoke source) fuel (depth + 1)
    { g with invocable := s'.ended, lock := g.lock.dispose } .dispose) _ = _
  rw [hinvoke]
  rfl

theorem Represents.on {out : List (Event ε α)} {fuel maxAttemptCount : Nat}
    (h : Represents g r out maxAttemptCount) (source : Nat → List (Event ε α)) (depth : Nat)
    (hfuel : maxAttemptCount + 1 ≤ fuel) {attempt : Nat} (hpresent : r.subscription = some attempt)
    (event : Event ε α) :
    ∃ g', CatchSequence.call source fuel (depth + 2) g (.on attempt event) = some g' ∧
      Represents g' ((retryLaw source).step r (.on attempt event)).1
        (out ++ ((retryLaw source).step r (.on attempt event)).2) maxAttemptCount := by
  obtain ⟨faulted, hidle, hsubscription, hstate⟩ := h.idle
  rw [hpresent] at hstate
  obtain ⟨rfl, hready⟩ := hstate
  rw [CatchSequence.call, if_pos (hsubscription.trans hpresent)]
  simp only [retryLaw, if_pos hpresent]
  cases event with
  | next element =>
    have hforward := CatchSequenceSink.forwardOn_of_not_disposed hready.disposed (.next element)
    refine ⟨{ g with invocable := g.invocable.forwardOn (.next element) }, rfl, ?_⟩
    rw [hforward]
    have hidle' : Gated.Idle
        { g with invocable := { g.invocable with forwarded := g.invocable.forwarded ++ [Event.next element] } }
        { g.invocable with forwarded := g.invocable.forwarded ++ [Event.next element] } false :=
      ⟨rfl, hidle.isExecuting, hidle.hasFaulted, hidle.queue⟩
    refine ⟨⟨false, hidle', hsubscription, ?_⟩, ?_, h.attempts, h.remaining⟩
    · rw [hpresent]
      exact ⟨rfl, hready.generators, hready.iterators, hready.isDisposed, hready.disposed,
        hready.subscriptionDisposed, hready.attempts⟩
    · exact congrArg (· ++ [Event.next element]) h.forwarded
  | error error =>
    have hfailed : CatchSequenceSink.Ready { g.invocable with lastError := some error } r.remaining attempt :=
      ⟨hready.generators, hready.iterators, hready.isDisposed, hready.disposed, hready.subscriptionDisposed,
        hready.attempts⟩
    have hidle' : Gated.Idle { g with invocable := { g.invocable with lastError := some error } }
        { g.invocable with lastError := some error } false :=
      ⟨rfl, hidle.isExecuting, hidle.hasFaulted, hidle.queue⟩
    have hmax := h.remaining attempt hpresent
    have hroom : r.remaining + 1 ≤ fuel := by omega
    obtain ⟨g', hinvoke, hrepresents⟩ := moveNext_represents source hidle' depth hfailed hroom hmax
    refine ⟨g', ?_, ?_⟩
    · rw [CatchSequenceSink.on, Gated.execute, hinvoke]
      rfl
    · rw [← h.forwarded]
      exact hrepresents
  | completed =>
    have hforward := CatchSequenceSink.forwardOn_of_not_disposed hready.disposed .completed
    obtain ⟨hdispose, hidle'⟩ :=
      execute_dispose hidle source fuel (depth + 1) (g.invocable.forwardOn .completed)
    rw [CatchSequenceSink.on]
    refine ⟨_, hdispose, ⟨true, hidle', rfl, rfl⟩, ?_, ?_, fun _ hnone => ?_⟩
    · rw [hforward]
      exact congrArg (· ++ [Event.completed]) h.forwarded
    · rw [hforward]
      exact h.attempts
    · cases hnone

theorem Represents.call {out : List (Event ε α)} {fuel maxAttemptCount : Nat}
    (h : Represents g r out maxAttemptCount) (source : Nat → List (Event ε α)) (depth : Nat)
    (hfuel : maxAttemptCount + 1 ≤ fuel) (c : CatchSequenceCall ε α) :
    ∃ g', CatchSequence.call source fuel (depth + 2) g c = some g' ∧
      Represents g' ((retryLaw source).step r c).1 (out ++ ((retryLaw source).step r c).2) maxAttemptCount := by
  obtain ⟨faulted, hidle, hsubscription, _⟩ := h.idle
  cases c with
  | on attempt event =>
    by_cases hpresent : r.subscription = some attempt
    · exact h.on source depth hfuel hpresent event
    · have hother : g.invocable.subscription ≠ some attempt := by
        rw [hsubscription]
        exact hpresent
      rw [CatchSequence.call, if_neg hother]
      simp only [retryLaw, if_neg hpresent]
      exact ⟨g, rfl, h.idle, by rw [h.forwarded, List.append_nil], h.attempts, h.remaining⟩
  | dispose =>
    obtain ⟨hdispose, hidle'⟩ := execute_dispose hidle source fuel (depth + 1) g.invocable
    refine ⟨_, hdispose, ⟨true, hidle', rfl, rfl⟩, ?_, h.attempts, fun _ hnone => ?_⟩
    · rw [retryLaw, List.append_nil]
      exact h.forwarded
    · cases hnone

theorem Represents.callAll {out : List (Event ε α)} {fuel maxAttemptCount : Nat}
    (h : Represents g r out maxAttemptCount) (source : Nat → List (Event ε α)) (depth : Nat)
    (hfuel : maxAttemptCount + 1 ≤ fuel) (calls : List (CatchSequenceCall ε α)) :
    ∃ g', CatchSequence.callAll source fuel (depth + 2) g calls = some g' ∧
      Represents g' ((retryLaw source).run r calls) (out ++ (retryLaw source).outputs r calls)
        maxAttemptCount := by
  induction calls generalizing g r out with
  | nil => exact ⟨g, rfl, by rwa [Machine.outputs, List.append_nil]⟩
  | cons c calls ih =>
    obtain ⟨g', hcall, hg'⟩ := h.call source depth hfuel c
    obtain ⟨g'', hrest, hg''⟩ := ih hg'
    refine ⟨g'', ?_, ?_⟩
    · rw [CatchSequence.callAll, hcall]
      exact hrest
    · rw [Machine.outputs, ← List.append_assoc]
      exact hg''

end CatchSequence

/-- Whatever the attempts give at once and later, and whenever it is disposed, the
sink of `retry` forwards what the abstract one does, is subscribed to the same
attempt, and has subscribed at most `maxAttemptCount` times. If its source is a
`retry` itself, and so on inwards, the sink is one `retry` with the product of all
the counts. -/
theorem retry_tries_again (source : Nat → List (Event ε α)) (maxAttemptCount : Nat) (nested : List Nat)
    (fuel depth : Nat) (calls : List (CatchSequenceCall ε α)) :
    let count := maxAttemptCount * nested.prod
    ∃ g, ((CatchSequence.run source (count + 1 + fuel) (depth + 2) maxAttemptCount nested).bind fun g =>
        CatchSequence.callAll source (count + 1 + fuel) (depth + 2) g calls) = some g ∧
      g.invocable.forwarded = (tryAgain source count 0 none).2 ++
        (retryLaw source).outputs (tryAgain source count 0 none).1 calls ∧
      g.invocable.subscription = ((retryLaw source).run (tryAgain source count 0 none).1 calls).subscription ∧
      g.invocable.attempts ≤ count := by
  intro count
  have hfuel : count + 1 ≤ count + 1 + fuel := Nat.le_add_right _ _
  obtain ⟨g, hrun, hg⟩ := CatchSequence.run_represents source _ depth maxAttemptCount nested hfuel
  obtain ⟨g', hcallAll, hg'⟩ := hg.callAll source depth hfuel calls
  obtain ⟨_, _, hagrees⟩ := hg'.idle
  refine ⟨g', ?_, hg'.forwarded, hagrees.1, hg'.attempts⟩
  rw [hrun, Option.bind_some]
  exact hcallAll

end Rx
