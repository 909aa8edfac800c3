import Reservation.Queue

/-! The gate that a tail recursive sink puts its work through. Work that arrives
while other work is under way waits in a queue. There is one thread, so the spin
lock is always free. -/

namespace Rx

variable {σ κ : Type*}

structure AsyncLock (κ : Type*) where
  queue : Queue κ := .init 0
  isExecuting : Bool := false
  hasFaulted : Bool := false
  deriving DecidableEq

namespace AsyncLock

def enqueue (lock : AsyncLock κ) (action : κ) : Option (AsyncLock κ × Option κ) :=
  if lock.hasFaulted then some (lock, none)
  else if lock.isExecuting then
    (lock.queue.enqueue action).map fun queue => ({ lock with queue }, none)
  else some ({ lock with isExecuting := true }, some action)

def dequeue (lock : AsyncLock κ) : Option (AsyncLock κ × Option κ) :=
  if 0 < lock.queue.count then
    lock.queue.dequeue.map fun next => ({ lock with queue := next.2 }, next.1)
  else some ({ lock with isExecuting := false }, none)

def dispose (lock : AsyncLock κ) : AsyncLock κ := { lock with queue := .init 0, hasFaulted := true }

variable {lock : AsyncLock κ} {action : κ}

theorem enqueue_faulted (hfaulted : lock.hasFaulted = true) : lock.enqueue action = some (lock, none) := by
  rw [enqueue, if_pos hfaulted]

theorem enqueue_taken (hfaulted : lock.hasFaulted = false) (htaken : lock.isExecuting = true) {queue : Queue κ}
    (hqueue : lock.queue.enqueue action = some queue) :
    lock.enqueue action = some ({ lock with queue }, none) := by
  simp only [enqueue, hfaulted, htaken, hqueue, Bool.false_eq_true, if_false, if_true, Option.map_some]

theorem enqueue_free (hfaulted : lock.hasFaulted = false) (hfree : lock.isExecuting = false) :
    lock.enqueue action = some ({ lock with isExecuting := true }, some action) := by
  simp only [enqueue, hfaulted, hfree, Bool.false_eq_true, if_false]

theorem dequeue_nil (h : lock.queue.Holds []) :
    lock.dequeue = some ({ lock with isExecuting := false }, none) := by
  have hcount : ¬ 0 < lock.queue.count := by
    rw [h.count]
    exact Nat.lt_irrefl 0
  rw [dequeue, if_neg hcount]

theorem dequeue_cons {waiting : List κ} (h : lock.queue.Holds (action :: waiting)) :
    ∃ queue, lock.dequeue = some ({ lock with queue }, some action) ∧ queue.Holds waiting := by
  have hcount : 0 < lock.queue.count := by
    rw [h.count]
    exact Nat.succ_pos _
  obtain ⟨_, queue, _, hdequeue, hholds, _⟩ := h.dequeue_cons
  exact ⟨queue, by rw [dequeue, if_pos hcount, hdequeue, Option.map_some], hholds⟩

end AsyncLock

/-- What an action does with the object it belongs to, whose state is `σ`: it
ends, or it comes to a call on its own gate and goes on from there. -/
inductive Body (σ κ : Type*)
  | done (s : σ)
  | invoke (s : σ) (action : κ) (next : σ → Body σ κ)
  | dispose (s : σ) (next : σ → Body σ κ)

inductive Moment (κ : Type*)
  | begins (action : κ)
  | ends (action : κ)
  deriving DecidableEq

/-- An object and its gate, and what has been going on there. -/
structure Gated (σ κ : Type*) where
  lock : AsyncLock κ
  invocable : σ
  trace : List (Moment κ)

namespace Gated

/-- `nested` is how the gate takes a call that comes out of the body. -/
def execute (nested : Gated σ κ → κ → Option (Gated σ κ)) : Gated σ κ → Body σ κ → Option (Gated σ κ)
  | g, .done s => some { g with invocable := s }
  | g, .invoke s action next =>
    (nested { g with invocable := s } action).bind fun g => execute nested g (next g.invocable)
  | g, .dispose s next => execute nested { g with invocable := s, lock := g.lock.dispose } (next s)

variable (work : κ → σ → Body σ κ)

def perform (nested : Gated σ κ → κ → Option (Gated σ κ)) (g : Gated σ κ) (action : κ) :
    Option (Gated σ κ) :=
  (execute nested { g with trace := g.trace ++ [.begins action] } (work action g.invocable)).map fun g =>
    { g with trace := g.trace ++ [.ends action] }

/-- The loop of `invoke`, for at most `fuel` rounds. -/
def loop (nested : Gated σ κ → κ → Option (Gated σ κ)) : Nat → Gated σ κ → Option (Gated σ κ)
  | 0, _ => none
  | fuel + 1, g =>
    match g.lock.dequeue with
    | none => none
    | some (lock, none) => some { g with lock }
    | some (lock, some nextAction) =>
      (perform work nested { g with lock } nextAction).bind (loop nested fuel)

/-- `depth` is the room there is on the stack for calls within calls. -/
def invoke (fuel : Nat) : Nat → Gated σ κ → κ → Option (Gated σ κ)
  | 0, _, _ => none
  | depth + 1, g, action =>
    match g.lock.enqueue action with
    | none => none
    | some (lock, none) => some { g with lock }
    | some (lock, some firstEnqueuedAction) =>
      (perform work (invoke fuel depth) { g with lock } firstEnqueuedAction).bind
        (loop work (invoke fuel depth) fuel)

end Gated

/-- What a gate is for: a list of work, done in turn. -/
structure Work (σ κ : Type*) where
  invocable : σ
  waiting : List κ
  faulted : Bool

namespace Work

def accept (w : Work σ κ) (action : κ) : Work σ κ :=
  if w.faulted then w else { w with waiting := w.waiting ++ [action] }

def execute : Work σ κ → Body σ κ → Work σ κ
  | w, .done s => { w with invocable := s }
  | w, .invoke s action next => execute ({ w with invocable := s }.accept action) (next s)
  | w, .dispose s next => execute { w with invocable := s, waiting := [], faulted := true } (next s)

/-- The actions in the order in which they are done, and what is left. -/
def rounds (work : κ → σ → Body σ κ) : Nat → Work σ κ → Option (List κ × Work σ κ)
  | 0, _ => none
  | fuel + 1, w =>
    match w.waiting with
    | [] => some ([], w)
    | action :: waiting =>
      (rounds work fuel ({ w with waiting }.execute (work action w.invocable))).map fun result =>
        (action :: result.1, result.2)

/-- Work that comes from outside, one call after another; a gate that has been
disposed takes no more. -/
def inTurn (work : κ → σ → Body σ κ) (fuel : Nat) : σ → Bool → List κ → Option (List κ × Work σ κ)
  | s, faulted, [] => some ([], ⟨s, [], faulted⟩)
  | s, true, _ :: actions => inTurn work fuel s true actions
  | s, false, action :: actions =>
    (rounds work (fuel + 1) ⟨s, [action], false⟩).bind fun first =>
      (inTurn work fuel first.2.invocable first.2.faulted actions).map fun rest =>
        (first.1 ++ rest.1, rest.2)

end Work

namespace Gated

def invokeAll (work : κ → σ → Body σ κ) (fuel depth : Nat) : Gated σ κ → List κ → Option (Gated σ κ)
  | g, [] => some g
  | g, action :: actions => (invoke work fuel depth g action).bind fun g => invokeAll work fuel depth g actions

/-- The gate is taken, and its queue holds what waits. -/
structure Executing (g : Gated σ κ) (w : Work σ κ) : Prop where
  invocable : g.invocable = w.invocable
  isExecuting : g.lock.isExecuting = true
  hasFaulted : g.lock.hasFaulted = w.faulted
  queue : g.lock.queue.Holds w.waiting

/-- The gate is free. -/
structure Idle (g : Gated σ κ) (s : σ) (faulted : Bool) : Prop where
  invocable : g.invocable = s
  isExecuting : g.lock.isExecuting = false
  hasFaulted : g.lock.hasFaulted = faulted
  queue : g.lock.queue.Holds []

variable {g : Gated σ κ} {w : Work σ κ}

/-- While the gate is taken a call waits, and returns at once. -/
theorem Executing.invoke (h : Executing g w) (work : κ → σ → Body σ κ) (fuel depth : Nat) (action : κ) :
    ∃ lock, Gated.invoke work fuel (depth + 1) g action = some { g with lock } ∧
      Executing { g with lock } (w.accept action) := by
  rw [Gated.invoke, Work.accept]
  cases hfaulted : w.faulted with
  | true =>
    rw [AsyncLock.enqueue_faulted (h.hasFaulted.trans hfaulted)]
    exact ⟨g.lock, rfl, h⟩
  | false =>
    obtain ⟨queue, henqueue, hholds, _⟩ := h.queue.enqueue action
    rw [AsyncLock.enqueue_taken (h.hasFaulted.trans hfaulted) h.isExecuting henqueue]
    exact ⟨_, rfl, h.invocable, h.isExecuting, h.hasFaulted.trans hfaulted, hholds⟩

theorem Executing.execute (h : Executing g w) (work : κ → σ → Body σ κ) (fuel depth : Nat)
    (body : Body σ κ) :
    ∃ g', Gated.execute (Gated.invoke work fuel (depth + 1)) g body = some g' ∧
      Executing g' (w.execute body) ∧ g'.trace = g.trace := by
  induction body generalizing g w with
  | done s => exact ⟨_, rfl, ⟨rfl, h.isExecuting, h.hasFaulted, h.queue⟩, rfl⟩
  | invoke s action next ih =>
    have hs : Executing { g with invocable := s } { w with invocable := s } :=
      ⟨rfl, h.isExecuting, h.hasFaulted, h.queue⟩
    obtain ⟨lock, hinvoke, hlock⟩ := hs.invoke work fuel depth action
    obtain ⟨g', hexecute, hg', htrace⟩ := ih s hlock
    exact ⟨g', by rw [Gated.execute, hinvoke]; exact hexecute, hg', htrace⟩
  | dispose s next ih =>
    have hs : Executing { g with invocable := s, lock := g.lock.dispose }
        { w with invocable := s, waiting := [], faulted := true } :=
      ⟨rfl, h.isExecuting, rfl, Queue.init_holds 0⟩
    exact ih s hs

theorem Executing.perform (h : Executing g w) (work : κ → σ → Body σ κ) (fuel depth : Nat) (action : κ) :
    ∃ g', Gated.perform work (Gated.invoke work fuel (depth + 1)) g action = some g' ∧
      Executing g' (w.execute (work action w.invocable)) ∧
      g'.trace = g.trace ++ [.begins action, .ends action] := by
  have hbegins : Executing { g with trace := g.trace ++ [.begins action] } w :=
    ⟨h.invocable, h.isExecuting, h.hasFaulted, h.queue⟩
  obtain ⟨g', hexecute, hg', htrace⟩ := hbegins.execute work fuel depth (work action w.invocable)
  refine ⟨{ g' with trace := g'.trace ++ [.ends action] }, ?_, ?_, ?_⟩
  · rw [← h.invocable] at hexecute
    rw [Gated.perform, hexecute, Option.map_some]
  · exact ⟨hg'.invocable, hg'.isExecuting, hg'.hasFaulted, hg'.queue⟩
  · rw [htrace, List.append_assoc]
    rfl

/-- Every action begins and ends before the next. -/
def turns (actions : List κ) : List (Moment κ) := actions.flatMap fun action => [.begins action, .ends action]

/-- The gate has done what the list of work says, and is free again; or neither
has come to an end. -/
inductive Outcome (past : List (Moment κ)) : Option (Gated σ κ) → Option (List κ × Work σ κ) → Prop
  | unfinished : Outcome past none none
  | finished {g : Gated σ κ} {w : Work σ κ} {actions : List κ} (hidle : Idle g w.invocable w.faulted)
      (htrace : g.trace = past ++ turns actions) : Outcome past (some g) (some (actions, w))

theorem Outcome.cons {past : List (Moment κ)} {action : κ} {result : Option (Gated σ κ)}
    {law : Option (List κ × Work σ κ)} (h : Outcome (past ++ [.begins action, .ends action]) result law) :
    Outcome past result (law.map fun result => (action :: result.1, result.2)) := by
  cases h with
  | unfinished => exact .unfinished
  | finished hidle htrace =>
    refine .finished hidle ?_
    rw [htrace, List.append_assoc]
    rfl

theorem Executing.loop (h : Executing g w) (work : κ → σ → Body σ κ) (fuel rounds depth : Nat) :
    Outcome g.trace (Gated.loop work (Gated.invoke work fuel (depth + 1)) rounds g) (w.rounds work rounds) := by
  induction rounds generalizing g w with
  | zero => exact .unfinished
  | succ rounds ih =>
    have hqueue := h.queue
    rw [Gated.loop, Work.rounds]
    cases hwaiting : w.waiting with
    | nil =>
      rw [hwaiting] at hqueue
      rw [AsyncLock.dequeue_nil hqueue]
      refine .finished ⟨h.invocable, rfl, h.hasFaulted, hqueue⟩ ?_
      rw [turns, List.flatMap_nil, List.append_nil]
    | cons action waiting =>
      rw [hwaiting] at hqueue
      obtain ⟨queue, hdequeue, hholds⟩ := AsyncLock.dequeue_cons hqueue
      have hnext : Executing { g with lock := { g.lock with queue } } { w with waiting } :=
        ⟨h.invocable, h.isExecuting, h.hasFaulted, hholds⟩
      obtain ⟨g', hperform, hg', htrace⟩ := hnext.perform work fuel depth action
      rw [hdequeue]
      dsimp only
      rw [hperform, Option.bind_some]
      refine Outcome.cons ?_
      rw [← htrace]
      exact ih hg'

theorem Idle.invoke {s : σ} (h : Idle g s false) (work : κ → σ → Body σ κ) (fuel depth : Nat) (action : κ) :
    Outcome g.trace (Gated.invoke work fuel (depth + 2) g action)
      (Work.rounds work (fuel + 1) ⟨s, [action], false⟩) := by
  have htaken : Executing { g with lock := { g.lock with isExecuting := true } } ⟨s, [], false⟩ :=
    ⟨h.invocable, rfl, h.hasFaulted, h.queue⟩
  obtain ⟨g', hperform, hg', htrace⟩ := htaken.perform work fuel depth action
  rw [Gated.invoke, Work.rounds, AsyncLock.enqueue_free h.hasFaulted h.isExecuting]
  dsimp only
  rw [hperform, Option.bind_some]
  refine Outcome.cons ?_
  rw [← htrace]
  exact hg'.loop work fuel fuel depth

theorem Idle.invoke_faulted {s : σ} (h : Idle g s true) (work : κ → σ → Body σ κ) (fuel depth : Nat)
    (action : κ) : Gated.invoke work fuel (depth + 1) g action = some g := by
  rw [Gated.invoke, AsyncLock.enqueue_faulted h.hasFaulted]

theorem Outcome.append {past : List (Moment κ)} {actions : List κ} {result : Option (Gated σ κ)}
    {law : Option (List κ × Work σ κ)} (h : Outcome (past ++ turns actions) result law) :
    Outcome past result (law.map fun rest => (actions ++ rest.1, rest.2)) := by
  cases h with
  | unfinished => exact .unfinished
  | finished hidle htrace =>
    refine .finished hidle ?_
    rw [htrace, List.append_assoc, turns, turns, turns, List.flatMap_append]

theorem Idle.invokeAll {s : σ} {faulted : Bool} (h : Idle g s faulted) (work : κ → σ → Body σ κ)
    (fuel depth : Nat) (actions : List κ) :
    Outcome g.trace (Gated.invokeAll work fuel (depth + 2) g actions)
      (Work.inTurn work fuel s faulted actions) := by
  induction actions generalizing g s faulted with
  | nil =>
    refine .finished (w := ⟨s, [], faulted⟩) h ?_
    rw [turns, List.flatMap_nil, List.append_nil]
  | cons action actions ih =>
    rw [Gated.invokeAll]
    cases faulted with
    | true =>
      rw [h.invoke_faulted work fuel (depth + 1), Option.bind_some]
      exact ih h
    | false =>
      have hfirst := h.invoke work fuel depth action
      rw [Work.inTurn]
      generalize Gated.invoke work fuel (depth + 2) g action = result at hfirst
      generalize Work.rounds work (fuel + 1) ⟨s, [action], false⟩ = law at hfirst
      cases hfirst with
      | unfinished => exact .unfinished
      | finished hidle htrace =>
        refine Outcome.append ?_
        rw [← htrace]
        exact ih hidle

end Gated

/-- Whatever calls come, from outside or out of the work itself, and whenever the
gate is disposed, it works as through a list: each action begins and ends before
the next, in the order of the calls, on two levels of the stack. -/
theorem gate_works_in_turn (work : κ → σ → Body σ κ) (fuel depth : Nat) (s : σ) (actions : List κ) :
    Gated.Outcome [] (Gated.invokeAll work fuel (depth + 2) ⟨{}, s, []⟩ actions)
      (Work.inTurn work fuel s false actions) := by
  have hidle : Gated.Idle ⟨({} : AsyncLock κ), s, []⟩ s false := ⟨rfl, rfl, rfl, Queue.init_holds 0⟩
  exact hidle.invokeAll work fuel depth actions

end Rx
