import Reservation.ValidationService
import Reservation.Errors

/-! The sign-in pipeline. `AuthResult` is one subscription to the sequence
`transform(input).authResult` of the view model, taken apart into its sinks. The
inner sequences of the `flatMap` are keyed by the number of their call. -/

namespace Reservation

/-- The implementations of `AuthServiceProtocol`: the class `AuthService`, and
whatever else a caller may pass to `AuthViewModel.init`. -/
inductive AuthServiceProtocol
  | authService
  | other (name : String)
  deriving DecidableEq

structure SignIn where
  service : AuthServiceProtocol
  email : Text
  password : Text
  deriving DecidableEq

/-- What `AuthService.signIn` tells its observer when the completion handler of
the backend runs with this error. -/
def AuthService.completion : Option NSError → List (Rx.Event NSError Unit)
  | none => [.next (), .completed]
  | some error => [.error error]

structure AuthResult where
  logPass : Rx.CombineLatest Text Text
  withLatestFrom : Rx.WithLatestFrom (Text × Text)
  flatMap : Rx.FlatMap Nat
  deriving DecidableEq

namespace AuthResult

def loginText (a : AuthResult) (text : Text) : AuthResult :=
  match validationUser text with
  | none => a
  | some email =>
    let next := a.logPass.nextFirst email
    { a with logPass := next.1, withLatestFrom := a.withLatestFrom.second next.2 }

def passwordText (a : AuthResult) (text : Text) : AuthResult :=
  match validationUser text with
  | none => a
  | some password =>
    let next := a.logPass.nextSecond password
    { a with logPass := next.1, withLatestFrom := a.withLatestFrom.second next.2 }

def subscribe (login password : Text) : AuthResult :=
  -- a field emits the text it holds as soon as it is subscribed to
  ((⟨.empty, .empty, .empty⟩ : AuthResult).loginText login).passwordText password

def authButtonTapped (a : AuthResult) (call : Nat) : AuthResult × Option SignIn :=
  match a.withLatestFrom.first with
  | none => (a, none)
  | some (email, password) =>
    -- a new `AuthService()`, not the service of the view model
    ({ a with flatMap := a.flatMap.subscribeInner call }, some ⟨.authService, email, password⟩)

def inner (a : AuthResult) (call : Nat) (event : Rx.Event NSError Unit) :
    AuthResult × Option (Rx.Event NSError Unit) :=
  let next := a.flatMap.on call event
  ({ a with flatMap := next.1 }, next.2)

def Coherent (a : AuthResult) : Prop := a.withLatestFrom.latest = a.logPass.getResult

theorem loginText_first (a : AuthResult) (t : Text) :
    (a.loginText t).logPass.first = (Rx.filter Text.isValid t).or a.logPass.first := by
  rw [loginText, validationUser_eq]
  cases Rx.filter Text.isValid t <;> simp [Rx.CombineLatest.nextFirst]

@[simp] theorem loginText_second (a : AuthResult) (t : Text) :
    (a.loginText t).logPass.second = a.logPass.second := by
  rw [loginText]
  cases validationUser t <;> simp [Rx.CombineLatest.nextFirst]

@[simp] theorem loginText_flatMap (a : AuthResult) (t : Text) :
    (a.loginText t).flatMap = a.flatMap := by
  rw [loginText]
  cases validationUser t <;> rfl

theorem passwordText_second (a : AuthResult) (t : Text) :
    (a.passwordText t).logPass.second = (Rx.filter Text.isValid t).or a.logPass.second := by
  rw [passwordText, validationUser_eq]
  cases Rx.filter Text.isValid t <;> simp [Rx.CombineLatest.nextSecond]

@[simp] theorem passwordText_first (a : AuthResult) (t : Text) :
    (a.passwordText t).logPass.first = a.logPass.first := by
  rw [passwordText]
  cases validationUser t <;> simp [Rx.CombineLatest.nextSecond]

@[simp] theorem passwordText_flatMap (a : AuthResult) (t : Text) :
    (a.passwordText t).flatMap = a.flatMap := by
  rw [passwordText]
  cases validationUser t <;> rfl

theorem Coherent.loginText {a : AuthResult} (h : a.Coherent) (t : Text) : (a.loginText t).Coherent := by
  change a.withLatestFrom.latest = a.logPass.getResult at h
  rw [AuthResult.loginText]
  cases validationUser t with
  | none => exact h
  | some email =>
    cases hs : a.logPass.second <;>
      simp [Coherent, Rx.CombineLatest.nextFirst, Rx.CombineLatest.getResult, Rx.WithLatestFrom.second,
        h, hs]

theorem Coherent.passwordText {a : AuthResult} (h : a.Coherent) (t : Text) :
    (a.passwordText t).Coherent := by
  change a.withLatestFrom.latest = a.logPass.getResult at h
  rw [AuthResult.passwordText]
  cases validationUser t with
  | none => exact h
  | some password =>
    cases hf : a.logPass.first <;>
      simp [Coherent, Rx.CombineLatest.nextSecond, Rx.CombineLatest.getResult, Rx.WithLatestFrom.second,
        h, hf]

theorem subscribe_coherent (login password : Text) : (subscribe login password).Coherent :=
  (Coherent.loginText (show Coherent ⟨.empty, .empty, .empty⟩ from rfl) login).passwordText password

@[simp] theorem subscribe_first (login password : Text) :
    (subscribe login password).logPass.first = Rx.filter Text.isValid login := by
  simp [subscribe, loginText_first, Rx.CombineLatest.empty]

@[simp] theorem subscribe_second (login password : Text) :
    (subscribe login password).logPass.second = Rx.filter Text.isValid password := by
  simp [subscribe, passwordText_second, Rx.CombineLatest.empty]

@[simp] theorem subscribe_group (login password : Text) :
    (subscribe login password).flatMap.group = [] := by
  simp [subscribe, Rx.FlatMap.empty]

end AuthResult

end Reservation
