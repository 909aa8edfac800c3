import Reservation.AuthViewModel
import Reservation.Machine

/-! The login screen: its two fields and its button, the subscription made in
`bindViewModel`, and the calls whose completion handlers have yet to run. -/

namespace Reservation

structure UIAlertController where
  title : String
  message : String
  deriving DecidableEq

inductive LoginEvent
  | editEmail (text : Text)
  | editPassword (text : Text)
  | tap
  -- the backend runs the completion handler of a call
  | completion (call : Nat) (error : Option NSError)
  deriving DecidableEq

inductive LoginEffect
  | signIn (call : Nat) (request : SignIn)
  | present (alert : UIAlertController)
  | pushView
  deriving DecidableEq

/-- `pending` holds the calls the backend has not answered, in the order they
were made; `calls` is the number of calls so far and names the next one. -/
structure AuthorizationViewController where
  emailTextField : Text
  passwordTextField : Text
  authResult : Rx.Retry AuthResult
  pending : List Nat
  calls : Nat
  deriving DecidableEq

namespace AuthorizationViewController

def alertController : UIAlertController :=
  ⟨"Ошибка", "Неправильный логин или пароль, повторите попытку"⟩

def viewDidLoad (email password : Text) : AuthorizationViewController :=
  ⟨email, password, .subscribe 3 (.subscribe email password), [], 0⟩

/-- A notification of the sequence returned by a call. -/
def deliver (vc : AuthorizationViewController) (call : Nat) (event : Rx.Event NSError Unit) :
    AuthorizationViewController × List LoginEffect :=
  match vc.authResult.subscription with
  | none => (vc, [])
  | some a =>
    let next := a.inner call event
    let vc' := { vc with authResult := { vc.authResult with subscription := some next.1 } }
    match next.2 with
    | none => (vc', [])
    | some (.next ()) => (vc', [.pushView])
    | some (.error _) =>
      -- `do(onError:)` comes first; then `retry` disposes the failed subscription
      -- and subscribes anew, to fields that emit the texts they hold now
      ({ vc with authResult :=
          vc.authResult.moveNext (.subscribe vc.emailTextField vc.passwordTextField) },
        [.present alertController])
    | some .completed => ({ vc with authResult := ⟨none, 0⟩ }, [])

def deliverAll (vc : AuthorizationViewController) (call : Nat) :
    List (Rx.Event NSError Unit) → AuthorizationViewController × List LoginEffect
  | [] => (vc, [])
  | event :: events =>
    let next := vc.deliver call event
    let rest := deliverAll next.1 call events
    (rest.1, next.2 ++ rest.2)

def completion (vc : AuthorizationViewController) (call : Nat) (error : Option NSError) :
    AuthorizationViewController × List LoginEffect :=
  if call ∈ vc.pending then
    deliverAll { vc with pending := vc.pending.erase call } call (AuthService.completion error)
  else
    -- no such call was made, or its handler has run already
    (vc, [])

def tap (vc : AuthorizationViewController) : AuthorizationViewController × List LoginEffect :=
  match vc.authResult.subscription with
  | none => (vc, [])
  | some a =>
    match a.authButtonTapped vc.calls with
    | (_, none) => (vc, [])
    | (a', some request) =>
      ({ vc with
          authResult := { vc.authResult with subscription := some a' }
          pending := vc.pending ++ [vc.calls]
          calls := vc.calls + 1 },
        [.signIn vc.calls request])

def step (vc : AuthorizationViewController) :
    LoginEvent → AuthorizationViewController × List LoginEffect
  | .editEmail text =>
    ({ vc with emailTextField := text, authResult := vc.authResult.map (·.loginText text) }, [])
  | .editPassword text =>
    ({ vc with passwordTextField := text, authResult := vc.authResult.map (·.passwordText text) }, [])
  | .tap => vc.tap
  | .completion call error => vc.completion call error

def isListening (vc : AuthorizationViewController) (call : Nat) : Bool :=
  vc.authResult.subscription.any fun a => decide (call ∈ a.flatMap.group)

theorem isListening_iff {vc : AuthorizationViewController} {call : Nat} :
    vc.isListening call = true ↔
      ∃ a, vc.authResult.subscription = some a ∧ call ∈ a.flatMap.group := by
  cases h : vc.authResult.subscription <;> simp [isListening, h]

theorem isListening_moveNext {vc : AuthorizationViewController} {result : Rx.Retry AuthResult}
    {email password : Text} (h : vc.authResult = result.moveNext (.subscribe email password)) (call : Nat) :
    vc.isListening call = false := by
  rw [isListening, h, Rx.Retry.moveNext_subscription]
  by_cases hz : result.remaining = 0
  · simp [hz]
  · simp [hz]

theorem tap_silent {vc : AuthorizationViewController}
    (h : ∀ a, vc.authResult.subscription = some a → a.withLatestFrom.latest = none) :
    vc.tap = (vc, []) := by
  rw [tap]
  cases hs : vc.authResult.subscription with
  | none => rfl
  | some a => simp [AuthResult.authButtonTapped, Rx.WithLatestFrom.first, h a hs]

theorem tap_call {vc : AuthorizationViewController} {a : AuthResult} {email password : Text}
    (hs : vc.authResult.subscription = some a)
    (hl : a.withLatestFrom.latest = some (email, password)) :
    vc.tap =
      ({ vc with
          authResult := { vc.authResult with
            subscription := some { a with flatMap := a.flatMap.subscribeInner vc.calls } }
          pending := vc.pending ++ [vc.calls]
          calls := vc.calls + 1 },
        [.signIn vc.calls ⟨.authService, email, password⟩]) := by
  simp [tap, hs, AuthResult.authButtonTapped, Rx.WithLatestFrom.first, hl]

theorem completion_unknown {vc : AuthorizationViewController} {call : Nat} {error : Option NSError}
    (h : call ∉ vc.pending) : vc.completion call error = (vc, []) := by
  simp [completion, h]

theorem completion_dropped {vc : AuthorizationViewController} {call : Nat} {error : Option NSError}
    (hp : call ∈ vc.pending) (hl : vc.isListening call = false) :
    vc.completion call error = ({ vc with pending := vc.pending.erase call }, []) := by
  have hdeliver (event : Rx.Event NSError Unit) :
      deliver { vc with pending := vc.pending.erase call } call event =
        ({ vc with pending := vc.pending.erase call }, []) := by
    cases hs : vc.authResult.subscription with
    | none => simp [deliver, hs]
    | some a =>
      have hn : call ∉ a.flatMap.group := by simpa [isListening, hs] using hl
      have hi : a.inner call event = (a, none) := by simp [AuthResult.inner, Rx.FlatMap.on_of_not_mem hn]
      simp only [deliver, hs, hi]
      rw [← hs]
  cases error <;> simp [completion, hp, AuthService.completion, deliverAll, hdeliver]

theorem completion_success {vc : AuthorizationViewController} {call : Nat} {a : AuthResult}
    (hp : call ∈ vc.pending) (hs : vc.authResult.subscription = some a)
    (hg : call ∈ a.flatMap.group) :
    vc.completion call none =
      ({ vc with
          authResult := { vc.authResult with
            subscription := some { a with flatMap := ⟨a.flatMap.group.erase call⟩ } }
          pending := vc.pending.erase call },
        [.pushView]) := by
  simp [completion, hp, AuthService.completion, deliverAll, deliver, hs, AuthResult.inner, Rx.FlatMap.on, hg]

theorem completion_rejected {vc : AuthorizationViewController} {call : Nat} {a : AuthResult}
    (hp : call ∈ vc.pending) (hs : vc.authResult.subscription = some a)
    (hg : call ∈ a.flatMap.group) (error : NSError) :
    vc.completion call (some error) =
      ({ vc with
          authResult := vc.authResult.moveNext (.subscribe vc.emailTextField vc.passwordTextField)
          pending := vc.pending.erase call },
        [.present alertController]) := by
  simp [completion, hp, AuthService.completion, deliverAll, deliver, hs, AuthResult.inner, Rx.FlatMap.on, hg]

/-- Everything `step` can do, with what is known in each case. A completion
handler answers no pending call, or one whose subscription is disposed, or it
pushes, or it presents the alert and subscribes anew. -/
inductive Steps (vc : AuthorizationViewController) :
    LoginEvent → AuthorizationViewController × List LoginEffect → Prop
  | editEmail (text : Text) : Steps vc (.editEmail text)
      ({ vc with emailTextField := text, authResult := vc.authResult.map (·.loginText text) }, [])
  | editPassword (text : Text) : Steps vc (.editPassword text)
      ({ vc with passwordTextField := text, authResult := vc.authResult.map (·.passwordText text) }, [])
  | silent : Steps vc .tap (vc, [])
  | call {a : AuthResult} {email password : Text} (hs : vc.authResult.subscription = some a)
      (hl : a.withLatestFrom.latest = some (email, password)) : Steps vc .tap
      ({ vc with
          authResult := { vc.authResult with
            subscription := some { a with flatMap := a.flatMap.subscribeInner vc.calls } }
          pending := vc.pending ++ [vc.calls]
          calls := vc.calls + 1 },
        [.signIn vc.calls ⟨.authService, email, password⟩])
  | unknown {call : Nat} {error : Option NSError} (hp : call ∉ vc.pending) :
      Steps vc (.completion call error) (vc, [])
  | dropped {call : Nat} {error : Option NSError} (hp : call ∈ vc.pending)
      (hl : vc.isListening call = false) : Steps vc (.completion call error)
      ({ vc with pending := vc.pending.erase call }, [])
  | success {call : Nat} {a : AuthResult} (hp : call ∈ vc.pending)
      (hs : vc.authResult.subscription = some a) (hg : call ∈ a.flatMap.group) :
      Steps vc (.completion call none)
      ({ vc with
          authResult := { vc.authResult with
            subscription := some { a with flatMap := ⟨a.flatMap.group.erase call⟩ } }
          pending := vc.pending.erase call },
        [.pushView])
  | rejected {call : Nat} {a : AuthResult} {error : NSError} (hp : call ∈ vc.pending)
      (hs : vc.authResult.subscription = some a) (hg : call ∈ a.flatMap.group) :
      Steps vc (.completion call (some error))
      ({ vc with
          authResult := vc.authResult.moveNext (.subscribe vc.emailTextField vc.passwordTextField)
          pending := vc.pending.erase call },
        [.present alertController])

theorem step_cases (vc : AuthorizationViewController) (e : LoginEvent) : vc.Steps e (vc.step e) := by
  cases e with
  | editEmail text => exact .editEmail text
  | editPassword text => exact .editPassword text
  | tap =>
    cases hs : vc.authResult.subscription with
    | none =>
      change vc.Steps .tap vc.tap
      rw [tap_silent (by simp [hs])]
      exact .silent
    | some a =>
      cases hl : a.withLatestFrom.latest with
      | none =>
        change vc.Steps .tap vc.tap
        rw [tap_silent (by simp [hs, hl])]
        exact .silent
      | some pair =>
        change vc.Steps .tap vc.tap
        rw [tap_call hs hl]
        exact .call hs hl
  | completion call error =>
    change vc.Steps (.completion call error) (vc.completion call error)
    by_cases hp : call ∈ vc.pending
    · cases hl : vc.isListening call with
      | false =>
        rw [completion_dropped hp hl]
        exact .dropped hp hl
      | true =>
        obtain ⟨a, hs, hg⟩ := isListening_iff.mp hl
        cases error with
        | none =>
          rw [completion_success hp hs hg]
          exact .success hp hs hg
        | some error =>
          rw [completion_rejected hp hs hg]
          exact .rejected hp hs hg
    · rw [completion_unknown hp]
      exact .unknown hp

end AuthorizationViewController

def loginScreen : Machine AuthorizationViewController LoginEvent LoginEffect :=
  ⟨AuthorizationViewController.step⟩

end Reservation
