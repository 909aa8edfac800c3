import Reservation.AuthorizationViewController

/-! One subscription to `transform(input).authResult` of a view model that was
given a service. -/

namespace Reservation

/-- The service is stored, and nothing reads it. -/
structure AuthViewModel where
  authService : AuthServiceProtocol
  deriving DecidableEq

inductive AuthInput
  | loginText (text : Text)
  | passwordText (text : Text)
  | authButtonTapped
  -- the sequence returned by a call has this notification for its observer
  | response (call : Nat) (event : Rx.Event NSError Unit)
  deriving DecidableEq

inductive AuthOutput
  | signIn (call : Nat) (request : SignIn)
  | event (event : Rx.Event NSError Unit)
  deriving DecidableEq

/-- `pending` holds the calls whose sequence has not ended. The sequence
`authResult` itself has ended when there is none left. -/
structure AuthSubscription where
  authResult : Option AuthResult
  pending : List Nat
  calls : Nat
  deriving DecidableEq

namespace AuthSubscription

def subscribe (login password : Text) : AuthSubscription := ⟨some (.subscribe login password), [], 0⟩

def authButtonTapped (s : AuthSubscription) : AuthSubscription × List AuthOutput :=
  match s.authResult with
  | none => (s, [])
  | some a =>
    match a.authButtonTapped s.calls with
    | (_, none) => (s, [])
    | (a', some request) =>
      (⟨some a', s.pending ++ [s.calls], s.calls + 1⟩, [.signIn s.calls request])

/-- The calls whose sequence is still open after this notification. -/
def stillPending (s : AuthSubscription) (call : Nat) : Rx.Event NSError Unit → List Nat
  | .next () => s.pending
  | _ => s.pending.erase call

def response (s : AuthSubscription) (call : Nat) (event : Rx.Event NSError Unit) :
    AuthSubscription × List AuthOutput :=
  match s.authResult with
  | none => (⟨none, s.stillPending call event, s.calls⟩, [])
  | some a =>
    let next := a.inner call event
    match next.2 with
    | none => (⟨some next.1, s.stillPending call event, s.calls⟩, [])
    | some (.next ()) => (⟨some next.1, s.stillPending call event, s.calls⟩, [.event (.next ())])
    -- an error or a completion ends the sequence
    | some ended => (⟨none, s.stillPending call event, s.calls⟩, [.event ended])

def step (s : AuthSubscription) : AuthInput → AuthSubscription × List AuthOutput
  | .loginText text => ({ s with authResult := s.authResult.map (·.loginText text) }, [])
  | .passwordText text => ({ s with authResult := s.authResult.map (·.passwordText text) }, [])
  | .authButtonTapped => s.authButtonTapped
  | .response call event => s.response call event

end AuthSubscription

def AuthViewModel.transform (_ : AuthViewModel) : Machine AuthSubscription AuthInput AuthOutput :=
  ⟨AuthSubscription.step⟩

namespace AuthSubscription

variable {s : AuthSubscription} {a : AuthResult} {call : Nat}

theorem response_success (hs : s.authResult = some a) (hg : call ∈ a.flatMap.group) :
    s.response call (.next ()) = (s, [.event (.next ())]) := by
  rw [response, hs]
  simp [AuthResult.inner, Rx.FlatMap.on, hg, stillPending, ← hs]

theorem response_completed (hs : s.authResult = some a) (call : Nat) :
    s.response call .completed =
      (⟨some { a with flatMap := ⟨a.flatMap.group.erase call⟩ }, s.pending.erase call, s.calls⟩, []) := by
  rw [response, hs]
  simp [AuthResult.inner, Rx.FlatMap.on, stillPending]

theorem response_error (hs : s.authResult = some a) (hg : call ∈ a.flatMap.group) (error : NSError) :
    s.response call (.error error) =
      (⟨none, s.pending.erase call, s.calls⟩, [.event (.error error)]) := by
  rw [response, hs]
  simp [AuthResult.inner, Rx.FlatMap.on, hg, stillPending]

end AuthSubscription

end Reservation
