import Reservation.ManagedObjects
import Mathlib.Data.List.Induction

/-! Which transactions of a context last. One whose save threw is carried to the
store by the next save that does not throw, unless the context goes away first. -/

namespace ManagedObjects

variable {γ ε κ : Type*}

inductive ContextEvent (κ ε : Type*)
  | transact (entry : κ) (error : Option ε)
  | reopen

def Context.step (edit : γ → κ → γ) (context : Context γ) : ContextEvent κ ε → Context γ
  | .transact entry error => context.transact (edit · entry) error
  | .reopen => .opened context.persisted

namespace ContextEvent

/-- Some save does not throw before the context goes away. -/
def commits : List (ContextEvent κ ε) → Bool
  | [] => false
  | .reopen :: _ => false
  | .transact _ none :: _ => true
  | .transact _ (some _) :: events => commits events

def reopens : List (ContextEvent κ ε) → Bool
  | [] => false
  | .reopen :: _ => true
  | .transact _ _ :: events => reopens events

/-- The entries that are in the store after these events. -/
def persisted : List (ContextEvent κ ε) → List κ
  | [] => []
  | .reopen :: events => persisted events
  | .transact entry error :: events =>
    if commits (.transact entry error :: events) then entry :: persisted events else persisted events

/-- The entries that a fetch finds after these events. -/
def registered : List (ContextEvent κ ε) → List κ
  | [] => []
  | .reopen :: events => registered events
  | .transact entry error :: events =>
    if commits (.transact entry error :: events) || !reopens events then entry :: registered events
    else registered events

variable (events : List (ContextEvent κ ε)) (entry : κ)

theorem commits_reopen : commits (events ++ [.reopen]) = commits events := by
  induction events with
  | nil => rfl
  | cons event events ih =>
    cases event with
    | reopen => rfl
    | transact _ error =>
      cases error with
      | none => rfl
      | some _ => exact ih

theorem commits_thrown (error : ε) : commits (events ++ [.transact entry (some error)]) = commits events := by
  induction events with
  | nil => rfl
  | cons event events ih =>
    cases event with
    | reopen => rfl
    | transact _ error' =>
      cases error' with
      | none => rfl
      | some _ => exact ih

theorem commits_saved : commits (events ++ [.transact entry none]) = (commits events || !reopens events) := by
  induction events with
  | nil => rfl
  | cons event events ih =>
    cases event with
    | reopen => rfl
    | transact _ error =>
      cases error with
      | none => rfl
      | some _ => exact ih

theorem reopens_reopen : reopens (events ++ [.reopen]) = true := by
  induction events with
  | nil => rfl
  | cons event events ih =>
    cases event with
    | reopen => rfl
    | transact _ _ => exact ih

theorem reopens_transact (error : Option ε) :
    reopens (events ++ [.transact entry error]) = reopens events := by
  induction events with
  | nil => rfl
  | cons event events ih =>
    cases event with
    | reopen => rfl
    | transact _ _ => exact ih

theorem persisted_reopen : persisted (events ++ [.reopen]) = persisted events := by
  induction events with
  | nil => rfl
  | cons event events ih =>
    cases event with
    | reopen => exact ih
    | transact first error =>
      have hcommits := commits_reopen (.transact first error :: events)
      rw [List.cons_append] at hcommits ⊢
      rw [persisted, persisted, hcommits, ih]

theorem registered_reopen : registered (events ++ [.reopen]) = persisted events := by
  induction events with
  | nil => rfl
  | cons event events ih =>
    cases event with
    | reopen => exact ih
    | transact first error =>
      have hcommits := commits_reopen (.transact first error :: events)
      rw [List.cons_append] at hcommits ⊢
      rw [registered, persisted, hcommits, reopens_reopen, Bool.not_true, Bool.or_false, ih]

theorem persisted_thrown (error : ε) :
    persisted (events ++ [.transact entry (some error)]) = persisted events := by
  induction events with
  | nil => rfl
  | cons event events ih =>
    cases event with
    | reopen => exact ih
    | transact first error' =>
      have hcommits := commits_thrown (.transact first error' :: events) entry error
      rw [List.cons_append] at hcommits ⊢
      rw [persisted, persisted, hcommits, ih]

theorem persisted_saved : persisted (events ++ [.transact entry none]) = registered events ++ [entry] := by
  induction events with
  | nil => rfl
  | cons event events ih =>
    cases event with
    | reopen => exact ih
    | transact first error =>
      have hcommits := commits_saved (.transact first error :: events) entry
      rw [List.cons_append] at hcommits ⊢
      rw [persisted, registered, hcommits, reopens, ih]
      split
      · rfl
      · rfl

theorem registered_snoc (error : Option ε) :
    registered (events ++ [.transact entry error]) = registered events ++ [entry] := by
  induction events with
  | nil => simp [registered, reopens]
  | cons event events ih =>
    cases event with
    | reopen => exact ih
    | transact first error' =>
      have hcommits : (commits (.transact first error' :: (events ++ [.transact entry error])) ||
          !reopens events) = (commits (.transact first error' :: events) || !reopens events) := by
        cases error with
        | none =>
          have hsaved := commits_saved (.transact first error' :: events) entry
          rw [List.cons_append] at hsaved
          rw [hsaved, reopens, Bool.or_assoc, Bool.or_self]
        | some error =>
          have hthrown := commits_thrown (.transact first error' :: events) entry error
          rw [List.cons_append] at hthrown
          rw [hthrown]
      rw [List.cons_append, registered, registered, reopens_transact, hcommits, ih]
      split
      · rfl
      · rfl

theorem persisted_prefix_registered : persisted events <+: registered events := by
  induction events using List.reverseRecOn with
  | nil => exact List.prefix_refl []
  | append_singleton events event ih =>
    cases event with
    | reopen => simp only [persisted_reopen, registered_reopen, List.prefix_refl]
    | transact entry error =>
      rw [registered_snoc]
      cases error with
      | none => simp only [persisted_saved, List.prefix_refl]
      | some error =>
        rw [persisted_thrown]
        exact ih.trans (List.prefix_append _ _)

/-- What is in the store stays there. -/
theorem persisted_prefix (more : List (ContextEvent κ ε)) : persisted events <+: persisted (events ++ more) := by
  induction more using List.reverseRecOn with
  | nil => simp only [List.append_nil, List.prefix_refl]
  | append_singleton more event ih =>
    rw [← List.append_assoc]
    cases event with
    | reopen => rwa [persisted_reopen]
    | transact entry error =>
      cases error with
      | none =>
        rw [persisted_saved]
        exact (ih.trans (persisted_prefix_registered _)).trans (List.prefix_append _ _)
      | some error => rwa [persisted_thrown]

end ContextEvent

/-- What a context and its store are after any events: the entries that last,
edited in order. -/
theorem Context.foldl_step (edit : γ → κ → γ) (g : γ) (events : List (ContextEvent κ ε)) :
    events.foldl (Context.step edit) (.opened g) =
      ⟨(ContextEvent.registered events).foldl edit g, (ContextEvent.persisted events).foldl edit g⟩ := by
  induction events using List.reverseRecOn with
  | nil => rfl
  | append_singleton events event ih =>
    rw [List.foldl_concat, ih]
    cases event with
    | reopen =>
      rw [ContextEvent.registered_reopen, ContextEvent.persisted_reopen]
      rfl
    | transact entry error =>
      rw [ContextEvent.registered_snoc, List.foldl_concat]
      cases error with
      | none =>
        rw [ContextEvent.persisted_saved, List.foldl_concat]
        rfl
      | some error =>
        rw [ContextEvent.persisted_thrown]
        rfl

end ManagedObjects
