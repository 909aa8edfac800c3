import Reservation.AuthTransform

/-! The login screen put together from the sequence of its view model, one
subscription to `transform(input).authResult` after the other, as `retry(3)`
makes them. A subscription numbers its own calls from zero. -/

namespace Reservation

/-- `base` is the number of calls made before the present subscription. -/
structure RetriedTransform where
  emailTextField : Text
  passwordTextField : Text
  authResult : Rx.Retry AuthSubscription
  base : Nat
  pending : List Nat
  calls : Nat
  deriving DecidableEq

namespace RetriedTransform

def viewDidLoad (email password : Text) : RetriedTransform :=
  ⟨email, password, .subscribe 3 (.subscribe email password), 0, [], 0⟩

/-- An output of the present subscription goes through `do(onError:)` and `retry`
to the subscriber. -/
def observe (screen : RetriedTransform) : AuthOutput → RetriedTransform × List LoginEffect
  | .signIn call request =>
    ({ screen with
        pending := screen.pending ++ [screen.base + call]
        calls := screen.base + call + 1 },
      [.signIn (screen.base + call) request])
  | .event (.next ()) => (screen, [.pushView])
  | .event (.error _) =>
    ({ screen with
        authResult :=
          screen.authResult.moveNext (.subscribe screen.emailTextField screen.passwordTextField)
        base := screen.calls },
      [.present AuthorizationViewController.alertController])
  | .event .completed => ({ screen with authResult := ⟨none, 0⟩ }, [])

def observer : Machine RetriedTransform AuthOutput LoginEffect := ⟨observe⟩

/-- The present subscription has gone on. -/
def resume (screen : RetriedTransform) (subscription : AuthSubscription) : RetriedTransform :=
  { screen with authResult := { screen.authResult with subscription := some subscription } }

def feed (viewModel : AuthViewModel) (screen : RetriedTransform) (input : AuthInput) :
    RetriedTransform × List LoginEffect :=
  match screen.authResult.subscription with
  | none => (screen, [])
  | some subscription =>
    let next := viewModel.transform.step subscription input
    observer.steps (screen.resume next.1) next.2

def feeder (viewModel : AuthViewModel) : Machine RetriedTransform AuthInput LoginEffect := ⟨feed viewModel⟩

def completion (viewModel : AuthViewModel) (screen : RetriedTransform) (call : Nat) (error : Option NSError) :
    RetriedTransform × List LoginEffect :=
  if call ∈ screen.pending then
    let answered := { screen with pending := screen.pending.erase call }
    -- a call before `base` answers to a subscription that has been disposed
    if screen.base ≤ call then
      (feeder viewModel).steps answered ((AuthService.completion error).map (.response (call - screen.base)))
    else (answered, [])
  else (screen, [])

def step (viewModel : AuthViewModel) (screen : RetriedTransform) :
    LoginEvent → RetriedTransform × List LoginEffect
  | .editEmail text => feed viewModel { screen with emailTextField := text } (.loginText text)
  | .editPassword text => feed viewModel { screen with passwordTextField := text } (.passwordText text)
  | .tap => feed viewModel screen .authButtonTapped
  | .completion call error => completion viewModel screen call error

end RetriedTransform

def retriedTransform (viewModel : AuthViewModel) : Machine RetriedTransform LoginEvent LoginEffect :=
  ⟨RetriedTransform.step viewModel⟩

namespace AuthResult

/-- The same subscription, its calls numbered from `base`. -/
def renumbered (a : AuthResult) (base : Nat) : AuthResult :=
  { a with flatMap := a.flatMap.map (base + ·) }

variable {a : AuthResult} {base call : Nat}

theorem renumbered_loginText (text : Text) :
    (a.loginText text).renumbered base = (a.renumbered base).loginText text := by
  rw [loginText, loginText]
  cases validationUser text <;> rfl

theorem renumbered_passwordText (text : Text) :
    (a.passwordText text).renumbered base = (a.renumbered base).passwordText text := by
  rw [passwordText, passwordText]
  cases validationUser text <;> rfl

theorem renumbered_authButtonTapped : (a.renumbered base).authButtonTapped (base + call) =
    ((a.authButtonTapped call).1.renumbered base, (a.authButtonTapped call).2) := by
  have hfirst : (a.renumbered base).withLatestFrom.first = a.withLatestFrom.first := rfl
  rw [authButtonTapped, authButtonTapped, hfirst]
  cases a.withLatestFrom.first with
  | none => rfl
  | some pair => simp [renumbered, Rx.FlatMap.map, Rx.FlatMap.subscribeInner]

theorem renumbered_inner (event : Rx.Event NSError Unit) : (a.renumbered base).inner (base + call) event =
    ((a.inner call event).1.renumbered base, (a.inner call event).2) := by
  have hinjective : Function.Injective (base + ·) := fun _ _ h => Nat.add_left_cancel h
  have hon := Rx.FlatMap.on_map hinjective a.flatMap call event
  simp only [inner, renumbered, hon]

theorem renumbered_subscribe (email password : Text) :
    (subscribe email password).renumbered base = subscribe email password := by
  have hgroup : (subscribe email password).flatMap.map (base + ·) = (subscribe email password).flatMap := by
    rw [Rx.FlatMap.map, subscribe_group, List.map_nil, ← subscribe_group email password]
  rw [renumbered, hgroup]

theorem not_mem_renumbered (h : call < base) : call ∉ (a.renumbered base).flatMap.group := by
  intro hmem
  obtain ⟨own, _, hcall⟩ := List.mem_map.mp hmem
  omega

end AuthResult

/-- The subscription of the screen is the present subscription to `transform`,
renumbered. -/
structure Retries (vc : AuthorizationViewController) (screen : RetriedTransform) : Prop where
  emailTextField : vc.emailTextField = screen.emailTextField
  passwordTextField : vc.passwordTextField = screen.passwordTextField
  pending : vc.pending = screen.pending
  calls : vc.calls = screen.calls
  remaining : vc.authResult.remaining = screen.authResult.remaining
  ended : screen.authResult.subscription = none → vc.authResult.subscription = none
  subscribed : ∀ (t : AuthSubscription), screen.authResult.subscription = some t →
    screen.calls = screen.base + t.calls ∧ ∃ a, t.authResult = some a ∧
      vc.authResult.subscription = some (a.renumbered screen.base)

namespace RetriedTransform

variable {screen : RetriedTransform} {viewModel : AuthViewModel} {input : AuthInput}

theorem feed_none (hs : screen.authResult.subscription = none) :
    feed viewModel screen input = (screen, []) := by
  simp only [feed, hs]

theorem feed_some {t t' : AuthSubscription} {outputs : List AuthOutput}
    (hs : screen.authResult.subscription = some t) (ht : t.step input = (t', outputs)) :
    feed viewModel screen input = observer.steps (screen.resume t') outputs := by
  have hstep : viewModel.transform.step t input = (t', outputs) := ht
  simp only [feed, hs, hstep]

end RetriedTransform

namespace AuthSubscription

variable {s : AuthSubscription} {a : AuthResult}

theorem tap_silent (hs : s.authResult = some a) (ha : (a.authButtonTapped s.calls).2 = none) :
    s.step .authButtonTapped = (s, []) := by
  have htap : a.authButtonTapped s.calls = ((a.authButtonTapped s.calls).1, none) := Prod.ext rfl ha
  rw [step, authButtonTapped, hs]
  dsimp only
  rw [htap]

theorem tap_call {request : SignIn} (hs : s.authResult = some a)
    (ha : (a.authButtonTapped s.calls).2 = some request) : s.step .authButtonTapped =
      (⟨some (a.authButtonTapped s.calls).1, s.pending ++ [s.calls], s.calls + 1⟩,
        [.signIn s.calls request]) := by
  have htap : a.authButtonTapped s.calls = ((a.authButtonTapped s.calls).1, some request) := Prod.ext rfl ha
  rw [step, authButtonTapped, hs]
  dsimp only
  rw [htap]

theorem response_ignored {call : Nat} {event : Rx.Event NSError Unit} (hs : s.authResult = some a)
    (ha : (a.inner call event).2 = none) : s.step (.response call event) =
      (⟨some (a.inner call event).1, s.stillPending call event, s.calls⟩, []) := by
  simp only [step, response, hs, ha]

theorem response_next {call : Nat} {event : Rx.Event NSError Unit} (hs : s.authResult = some a)
    (ha : (a.inner call event).2 = some (.next ())) : s.step (.response call event) =
      (⟨some (a.inner call event).1, s.stillPending call event, s.calls⟩, [.event (.next ())]) := by
  simp only [step, response, hs, ha]

theorem response_ended {call : Nat} {event ended : Rx.Event NSError Unit} (hs : s.authResult = some a)
    (ha : (a.inner call event).2 = some ended) (hended : ended ≠ .next ()) : s.step (.response call event) =
      (⟨none, s.stillPending call event, s.calls⟩, [.event ended]) := by
  cases ended with
  | next element => exact absurd rfl hended
  | error error => simp only [step, response, hs, ha]
  | completed => simp only [step, response, hs, ha]

end AuthSubscription

namespace Retries

variable {vc : AuthorizationViewController} {screen : RetriedTransform}

theorem resume (h : Retries vc screen) {t : AuthSubscription} {a : AuthResult}
    (hcalls : screen.calls = screen.base + t.calls) (ha : t.authResult = some a) :
    Retries { vc with authResult := { vc.authResult with subscription := some (a.renumbered screen.base) } }
      (screen.resume t) := by
  refine ⟨h.emailTextField, h.passwordTextField, h.pending, h.calls, h.remaining, ?_, ?_⟩
  · intro hended
    cases hended
  · intro t' ht'
    obtain rfl := Option.some.inj ht'
    exact ⟨hcalls, a, ha, rfl⟩

theorem edit (h : Retries vc screen) (viewModel : AuthViewModel) {f : AuthResult → AuthResult}
    {input : AuthInput}
    (hinput : ∀ (t : AuthSubscription), t.step input = (⟨t.authResult.map f, t.pending, t.calls⟩, []))
    (hf : ∀ (a : AuthResult), (f a).renumbered screen.base = f (a.renumbered screen.base)) :
    (RetriedTransform.feed viewModel screen input).2 = [] ∧
      Retries { vc with authResult := vc.authResult.map f }
        (RetriedTransform.feed viewModel screen input).1 := by
  cases hs : screen.authResult.subscription with
  | none =>
    have hvc : vc.authResult.map f = vc.authResult := by
      rw [Rx.Retry.map, h.ended hs, Option.map_none, ← h.ended hs]
    rw [RetriedTransform.feed_none hs, hvc]
    exact ⟨rfl, h⟩
  | some t =>
    obtain ⟨hcalls, a, ha, hvc⟩ := h.subscribed t hs
    have hmap : vc.authResult.map f =
        { vc.authResult with subscription := some ((f a).renumbered screen.base) } := by
      rw [Rx.Retry.map, hvc, Option.map_some, hf]
    have ha' : t.authResult.map f = some (f a) := by rw [ha, Option.map_some]
    rw [RetriedTransform.feed_some hs (hinput t), Machine.steps_nil, hmap]
    exact ⟨rfl, h.resume hcalls ha'⟩

theorem tap (h : Retries vc screen) (viewModel : AuthViewModel) :
    vc.tap.2 = (RetriedTransform.feed viewModel screen .authButtonTapped).2 ∧
      Retries vc.tap.1 (RetriedTransform.feed viewModel screen .authButtonTapped).1 := by
  cases hs : screen.authResult.subscription with
  | none =>
    have htap : vc.tap = (vc, []) := AuthorizationViewController.tap_silent (by simp [h.ended hs])
    rw [RetriedTransform.feed_none hs, htap]
    exact ⟨rfl, h⟩
  | some t =>
    obtain ⟨hcalls, a, ha, hvc⟩ := h.subscribed t hs
    have hrenumbered := @AuthResult.renumbered_authButtonTapped a screen.base t.calls
    rw [← hcalls, ← h.calls] at hrenumbered
    cases hrequest : (a.authButtonTapped t.calls).2 with
    | none =>
      have htap : vc.tap = (vc, []) := by
        simp only [AuthorizationViewController.tap, hvc, hrenumbered, hrequest]
      have hresume : screen.resume t = screen := by
        rw [RetriedTransform.resume, ← hs]
      rw [RetriedTransform.feed_some hs (AuthSubscription.tap_silent ha hrequest), Machine.steps_nil, htap,
        hresume]
      exact ⟨rfl, h⟩
    | some request =>
      have htap : vc.tap = ({ vc with
          authResult := { vc.authResult with
            subscription := some ((a.authButtonTapped t.calls).1.renumbered screen.base) }
          pending := vc.pending ++ [vc.calls]
          calls := vc.calls + 1 }, [.signIn vc.calls request]) := by
        simp only [AuthorizationViewController.tap, hvc, hrenumbered, hrequest]
      rw [RetriedTransform.feed_some hs (AuthSubscription.tap_call ha hrequest), Machine.steps_singleton, htap]
      refine ⟨by rw [h.calls, hcalls]; rfl, ?_⟩
      refine ⟨h.emailTextField, h.passwordTextField, ?_, ?_, h.remaining, ?_, ?_⟩
      · rw [h.pending, h.calls, hcalls]
        rfl
      · rw [h.calls, hcalls]
        rfl
      · intro hended
        cases hended
      · intro t' ht'
        obtain rfl := Option.some.inj ht'
        exact ⟨rfl, _, rfl, rfl⟩

theorem moveNext (h : Retries vc screen) :
    Retries { vc with authResult :=
        vc.authResult.moveNext (.subscribe vc.emailTextField vc.passwordTextField) }
      { screen with
        authResult :=
          screen.authResult.moveNext (.subscribe screen.emailTextField screen.passwordTextField)
        base := screen.calls } := by
  refine ⟨h.emailTextField, h.passwordTextField, h.pending, h.calls, ?_, ?_, ?_⟩
  · rw [Rx.Retry.moveNext_remaining, Rx.Retry.moveNext_remaining, h.remaining]
  · simp only [Rx.Retry.moveNext_subscription, h.remaining]
    intro hended
    by_cases hremaining : screen.authResult.remaining = 0
    · rw [if_pos hremaining]
    · rw [if_neg hremaining] at hended
      cases hended
  · simp only [Rx.Retry.moveNext_subscription, h.remaining]
    intro t ht
    by_cases hremaining : screen.authResult.remaining = 0
    · rw [if_pos hremaining] at ht
      cases ht
    · rw [if_neg hremaining] at ht ⊢
      obtain rfl := Option.some.inj ht
      refine ⟨rfl, _, rfl, ?_⟩
      rw [AuthResult.renumbered_subscribe, h.emailTextField, h.passwordTextField]

theorem deliver (h : Retries vc screen) (viewModel : AuthViewModel) (call : Nat)
    (event : Rx.Event NSError Unit) :
    (vc.deliver (screen.base + call) event).2 =
        (RetriedTransform.feed viewModel screen (.response call event)).2 ∧
      Retries (vc.deliver (screen.base + call) event).1
        (RetriedTransform.feed viewModel screen (.response call event)).1 := by
  cases hs : screen.authResult.subscription with
  | none =>
    have hdeliver : vc.deliver (screen.base + call) event = (vc, []) := by
      simp only [AuthorizationViewController.deliver, h.ended hs]
    rw [RetriedTransform.feed_none hs, hdeliver]
    exact ⟨rfl, h⟩
  | some t =>
    obtain ⟨hcalls, a, ha, hvc⟩ := h.subscribed t hs
    have hinner := @AuthResult.renumbered_inner a screen.base call event
    simp only [AuthorizationViewController.deliver, hvc, hinner]
    cases hout : (a.inner call event).2 with
    | none =>
      rw [RetriedTransform.feed_some hs (AuthSubscription.response_ignored ha hout), Machine.steps_nil]
      exact ⟨rfl, h.resume hcalls rfl⟩
    | some out =>
      cases out with
      | next element =>
        rw [RetriedTransform.feed_some hs (AuthSubscription.response_next ha hout), Machine.steps_singleton]
        exact ⟨rfl, h.resume hcalls rfl⟩
      | error error =>
        have hended : Rx.Event.error error ≠ Rx.Event.next () := by simp
        rw [RetriedTransform.feed_some hs (AuthSubscription.response_ended ha hout hended),
          Machine.steps_singleton]
        exact ⟨rfl, h.moveNext⟩
      | completed =>
        have hended : (Rx.Event.completed : Rx.Event NSError Unit) ≠ .next () := by simp
        rw [RetriedTransform.feed_some hs (AuthSubscription.response_ended ha hout hended),
          Machine.steps_singleton]
        refine ⟨rfl, h.emailTextField, h.passwordTextField, h.pending, h.calls, rfl, fun _ => rfl, ?_⟩
        intro t' ht'
        cases ht'

/-- A success leaves the subscription where it is. -/
theorem base_next (h : Retries vc screen) (viewModel : AuthViewModel) (call : Nat) :
    (RetriedTransform.feed viewModel screen (.response call (.next ()))).1.base = screen.base := by
  cases hs : screen.authResult.subscription with
  | none => rw [RetriedTransform.feed_none hs]
  | some t =>
    obtain ⟨_, a, ha, _⟩ := h.subscribed t hs
    by_cases hgroup : call ∈ a.flatMap.group
    · have hout : (a.inner call (.next ())).2 = some (.next ()) := by
        simp [AuthResult.inner, Rx.FlatMap.on, hgroup]
      rw [RetriedTransform.feed_some hs (AuthSubscription.response_next ha hout), Machine.steps_singleton]
      rfl
    · have hout : (a.inner call (.next ())).2 = none := by
        simp [AuthResult.inner, Rx.FlatMap.on, hgroup]
      rw [RetriedTransform.feed_some hs (AuthSubscription.response_ignored ha hout), Machine.steps_nil]
      rfl

theorem deliverAll (h : Retries vc screen) (viewModel : AuthViewModel) (call : Nat) (error : Option NSError) :
    (vc.deliverAll (screen.base + call) (AuthService.completion error)).2 =
        ((RetriedTransform.feeder viewModel).steps screen
          ((AuthService.completion error).map (.response call))).2 ∧
      Retries (vc.deliverAll (screen.base + call) (AuthService.completion error)).1
        ((RetriedTransform.feeder viewModel).steps screen
          ((AuthService.completion error).map (.response call))).1 := by
  cases error with
  | none =>
    obtain ⟨hnext, hdelivered⟩ := h.deliver viewModel call (.next ())
    obtain ⟨hcompleted, hrelated⟩ := hdelivered.deliver viewModel call .completed
    rw [h.base_next] at hcompleted hrelated
    refine ⟨?_, hrelated⟩
    have houtputs := congrArg₂ (· ++ ·) hnext hcompleted
    simpa [AuthService.completion, AuthorizationViewController.deliverAll, Machine.steps_cons,
      RetriedTransform.feeder] using houtputs
  | some error =>
    obtain ⟨herror, hrelated⟩ := h.deliver viewModel call (.error error)
    refine ⟨?_, hrelated⟩
    simpa [AuthService.completion, AuthorizationViewController.deliverAll, Machine.steps_cons,
      RetriedTransform.feeder] using herror

/-- The present subscription has nothing of the calls made before it. -/
theorem not_listening (h : Retries vc screen) {call : Nat} (hcall : call < screen.base) :
    vc.isListening call = false := by
  rw [Bool.eq_false_iff, ne_eq, AuthorizationViewController.isListening_iff]
  rintro ⟨a', ha', hgroup⟩
  cases hs : screen.authResult.subscription with
  | none =>
    rw [h.ended hs] at ha'
    cases ha'
  | some t =>
    obtain ⟨_, a, _, hvc⟩ := h.subscribed t hs
    obtain rfl := Option.some.inj (hvc.symm.trans ha')
    exact AuthResult.not_mem_renumbered hcall hgroup

theorem completion (h : Retries vc screen) (viewModel : AuthViewModel) (call : Nat) (error : Option NSError) :
    (vc.completion call error).2 = (RetriedTransform.completion viewModel screen call error).2 ∧
      Retries (vc.completion call error).1 (RetriedTransform.completion viewModel screen call error).1 := by
  rw [RetriedTransform.completion]
  by_cases hp : call ∈ vc.pending
  · have hpending : call ∈ screen.pending := h.pending ▸ hp
    have herase : Retries { vc with pending := vc.pending.erase call }
        { screen with pending := screen.pending.erase call } :=
      { h with pending := congrArg (List.erase · call) h.pending }
    rw [if_pos hpending]
    by_cases hbase : screen.base ≤ call
    · obtain ⟨own, rfl⟩ := Nat.exists_eq_add_of_le hbase
      have hown : screen.base + own - screen.base = own := Nat.add_sub_cancel_left _ _
      rw [if_pos hbase, AuthorizationViewController.completion, if_pos hp, hown]
      exact herase.deliverAll viewModel own error
    · have hlistening := h.not_listening (Nat.not_le.mp hbase)
      rw [if_neg hbase, AuthorizationViewController.completion_dropped hp hlistening]
      exact ⟨rfl, herase⟩
  · have hpending : call ∉ screen.pending := h.pending ▸ hp
    rw [if_neg hpending, AuthorizationViewController.completion_unknown hp]
    exact ⟨rfl, h⟩

theorem step (h : Retries vc screen) (viewModel : AuthViewModel) (e : LoginEvent) :
    (vc.step e).2 = (RetriedTransform.step viewModel screen e).2 ∧
      Retries (vc.step e).1 (RetriedTransform.step viewModel screen e).1 := by
  cases e with
  | editEmail text =>
    have hshown : Retries { vc with emailTextField := text } { screen with emailTextField := text } :=
      { h with emailTextField := rfl }
    have hinput (t : AuthSubscription) :
        t.step (.loginText text) = (⟨t.authResult.map (·.loginText text), t.pending, t.calls⟩, []) := rfl
    obtain ⟨hquiet, hrelated⟩ := hshown.edit viewModel hinput fun _ => AuthResult.renumbered_loginText text
    exact ⟨hquiet.symm, hrelated⟩
  | editPassword text =>
    have hshown : Retries { vc with passwordTextField := text } { screen with passwordTextField := text } :=
      { h with passwordTextField := rfl }
    have hinput (t : AuthSubscription) :
        t.step (.passwordText text) = (⟨t.authResult.map (·.passwordText text), t.pending, t.calls⟩, []) := rfl
    obtain ⟨hquiet, hrelated⟩ := hshown.edit viewModel hinput fun _ => AuthResult.renumbered_passwordText text
    exact ⟨hquiet.symm, hrelated⟩
  | tap => exact h.tap viewModel
  | completion call error => exact h.completion viewModel call error

end Retries

theorem retries_viewDidLoad (email password : Text) :
    Retries (.viewDidLoad email password) (.viewDidLoad email password) := by
  refine ⟨rfl, rfl, rfl, rfl, rfl, ?_, ?_⟩
  · intro hended
    cases hended
  · intro t ht
    obtain rfl := Option.some.inj ht
    exact ⟨rfl, _, rfl, congrArg some (AuthResult.renumbered_subscribe email password).symm⟩

/-- Over any history the login screen is `retry` over the sequence of its view
model: it calls, pushes and alerts alike, and its subscription is the present
subscription to `transform`, renumbered. -/
theorem loginScreen_retries (viewModel : AuthViewModel) (email password : Text) (es : List LoginEvent) :
    loginScreen.outputs (.viewDidLoad email password) es =
        (retriedTransform viewModel).outputs (.viewDidLoad email password) es ∧
      Retries (loginScreen.run (.viewDidLoad email password) es)
        ((retriedTransform viewModel).run (.viewDidLoad email password) es) :=
  loginScreen.run_simulates (retriedTransform viewModel) (R := Retries) (fun _ _ e h => h.step viewModel e)
    (retries_viewDidLoad email password) es

end Reservation
