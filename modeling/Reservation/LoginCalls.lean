import Reservation.LoginHistory

/-! Which calls of `signIn` the login screen makes, when, and with which texts. -/

namespace Reservation

def LoginEffect.call : LoginEffect → Option (Nat × SignIn)
  | .signIn call request => some (call, request)
  | _ => none

def AuthorizationViewController.callsAt (vc : AuthorizationViewController) (e : LoginEvent) :
    List (Nat × SignIn) :=
  (vc.step e).2.filterMap LoginEffect.call

namespace AuthorizationViewController

theorem callsAt_of_not_tap {vc : AuthorizationViewController} {e : LoginEvent} (h : e ≠ .tap) :
    vc.callsAt e = [] := by
  have hstep := vc.step_cases e
  rw [callsAt]
  generalize vc.step e = next at hstep ⊢
  cases hstep with
  | silent => exact absurd rfl h
  | call _ _ => exact absurd rfl h
  | _ => rfl

theorem callsAt_tap_silent {vc : AuthorizationViewController}
    (h : ∀ a, vc.authResult.subscription = some a → a.withLatestFrom.latest = none) :
    vc.callsAt .tap = [] := by
  simp [callsAt, step, tap_silent h]

theorem callsAt_tap_call {vc : AuthorizationViewController} {a : AuthResult} {email password : Text}
    (hs : vc.authResult.subscription = some a)
    (hl : a.withLatestFrom.latest = some (email, password)) :
    vc.callsAt .tap = [(vc.calls, ⟨.authService, email, password⟩)] := by
  simp [callsAt, step, tap_call hs hl, LoginEffect.call]

theorem callsAt_length (vc : AuthorizationViewController) (e : LoginEvent) :
    (vc.callsAt e).length ≤ 1 := by
  have hstep := vc.step_cases e
  rw [callsAt]
  generalize vc.step e = next at hstep ⊢
  cases hstep with
  | call _ _ => exact Nat.le_refl 1
  | _ => exact Nat.zero_le 1

end AuthorizationViewController

structure CallAt (email password : Text) (past : List LoginEvent) (e : LoginEvent)
    (call : Nat × SignIn) : Prop where
  issued : call ∈ (loginScreen.run (.viewDidLoad email password) past).callsAt e
  tap : e = .tap
  emailHeld : call.2.email ∈ emailTexts email past
  emailValid : 3 ≤ call.2.email.count ∧ call.2.email.count < 20
  passwordHeld : call.2.password ∈ passwordTexts password past
  passwordValid : 3 ≤ call.2.password.count ∧ call.2.password.count < 20

theorem callAt_of_mem {email password : Text} {past : List LoginEvent} {e : LoginEvent}
    {call : Nat × SignIn}
    (h : call ∈ (loginScreen.run (.viewDidLoad email password) past).callsAt e) :
    CallAt email password past e call := by
  have hr := loginScreen_remembers email password past
  have htap : e = .tap := by
    by_contra he
    rw [AuthorizationViewController.callsAt_of_not_tap he] at h
    simp at h
  subst htap
  have hstep := (loginScreen.run (.viewDidLoad email password) past).step_cases .tap
  generalize hnext : (loginScreen.run (.viewDidLoad email password) past).step .tap = next at hstep
  cases hstep with
  | silent =>
    rw [AuthorizationViewController.callsAt, hnext] at h
    simp at h
  | call hs hl =>
    have hcall := AuthorizationViewController.callsAt_tap_call hs hl
    obtain ⟨⟨hu, huv⟩, hv, hvv⟩ := hr.call hs hl
    rw [hcall, List.mem_singleton] at h
    subst h
    exact ⟨by simp [hcall], rfl, hu, Text.isValid_iff.mp huv, hv, Text.isValid_iff.mp hvv⟩

/-- Over any history the calls are made at taps, at most one at each and in
their order, whatever is edited, answered or tried again in between. -/
theorem calls_follow_taps (email password : Text) (es : List LoginEvent) :
    ∃ positions : List Nat, positions.Pairwise (· < ·) ∧ (∀ i ∈ positions, i < es.length) ∧
      List.Forall₂ (fun i call => ∃ past e future, es = past ++ e :: future ∧ past.length = i ∧
          CallAt email password past e call)
        positions ((loginScreen.outputs (.viewDidLoad email password) es).filterMap LoginEffect.call) :=
  loginScreen.outputs_positions _ LoginEffect.call
    (fun past e => (loginScreen.run (.viewDidLoad email password) past).callsAt_length e)
    (fun _ _ _ h => callAt_of_mem h) es

def NoRejection (es : List LoginEvent) : Prop :=
  ∀ call error, LoginEvent.completion call (some error) ∉ es

theorem NoRejection.dropLast {es : List LoginEvent} {e : LoginEvent} (h : NoRejection (es ++ [e])) :
    NoRejection es := fun call error hm => h call error (List.mem_append_left _ hm)

def Undisturbed (email password : Text) (es : List LoginEvent) (vc : AuthorizationViewController) : Prop :=
  ∃ a, vc.authResult.subscription = some a ∧
    a.logPass.first = Rx.latest Text.isValid (emailTexts email es) ∧
    a.logPass.second = Rx.latest Text.isValid (passwordTexts password es)

theorem Undisturbed.quiet {email password : Text} {es : List LoginEvent}
    {vc vc' : AuthorizationViewController} (h : Undisturbed email password es vc) {e : LoginEvent}
    (hemail : e.emailText = none) (hpassword : e.passwordText = none)
    (hs : ∀ a, vc.authResult.subscription = some a → ∃ a', vc'.authResult.subscription = some a' ∧
      a'.logPass = a.logPass) : Undisturbed email password (es ++ [e]) vc' := by
  obtain ⟨a, ha, hfirst, hsecond⟩ := h
  obtain ⟨a', ha', hlog⟩ := hs a ha
  refine ⟨a', ha', ?_, ?_⟩
  · simpa [emailTexts_snoc, hemail, hlog] using hfirst
  · simpa [passwordTexts_snoc, hpassword, hlog] using hsecond

theorem Undisturbed.step {email password : Text} {es : List LoginEvent}
    {vc : AuthorizationViewController} (h : Undisturbed email password es vc) {e : LoginEvent}
    (he : NoRejection (es ++ [e])) : Undisturbed email password (es ++ [e]) (vc.step e).1 := by
  obtain ⟨a, ha, hfirst, hsecond⟩ := id h
  have hstep := vc.step_cases e
  generalize vc.step e = next at hstep ⊢
  cases hstep with
  | editEmail t =>
    refine ⟨a.loginText t, by simp [ha], ?_, ?_⟩
    · rw [AuthResult.loginText_first, emailTexts_snoc, hfirst]
      exact (Rx.latest_snoc _ _ _).symm
    · simpa [passwordTexts_snoc, LoginEvent.passwordText] using hsecond
  | editPassword t =>
    refine ⟨a.passwordText t, by simp [ha], ?_, ?_⟩
    · simpa [emailTexts_snoc, LoginEvent.emailText] using hfirst
    · rw [AuthResult.passwordText_second, passwordTexts_snoc, hsecond]
      exact (Rx.latest_snoc _ _ _).symm
  | silent => exact h.quiet rfl rfl fun a ha => ⟨a, ha, rfl⟩
  | call hs _ => exact h.quiet rfl rfl fun a ha => ⟨_, rfl, by rw [Option.some.inj (hs.symm.trans ha)]⟩
  | unknown _ => exact h.quiet rfl rfl fun a ha => ⟨a, ha, rfl⟩
  | dropped _ _ => exact h.quiet rfl rfl fun a ha => ⟨a, ha, rfl⟩
  | success _ hs _ => exact h.quiet rfl rfl fun a ha => ⟨_, rfl, by rw [Option.some.inj (hs.symm.trans ha)]⟩
  | rejected _ _ _ => exact absurd (List.mem_append_right es (List.mem_singleton_self _)) (he _ _)

theorem loginScreen_undisturbed (email password : Text) {es : List LoginEvent} (h : NoRejection es) :
    Undisturbed email password es (loginScreen.run (.viewDidLoad email password) es) :=
  loginScreen.run_invariant_of (P := Undisturbed email password)
    (fun _ _ => NoRejection.dropLast)
    ⟨.subscribe email password, rfl, by simp [emailTexts, Rx.latest_singleton],
      by simp [passwordTexts, Rx.latest_singleton]⟩
    (fun _ _ he hi => hi.step he) es h

/-- What a tap is meant to do: one call with the two texts on the screen when
both are valid, and none otherwise. -/
def AuthorizationViewController.SubmitsScreen (vc : AuthorizationViewController) : Prop :=
  (vc.emailTextField.isValid = true ∧ vc.passwordTextField.isValid = true →
    vc.callsAt .tap = [(vc.calls, ⟨.authService, vc.emailTextField, vc.passwordTextField⟩)]) ∧
  (¬(vc.emailTextField.isValid = true ∧ vc.passwordTextField.isValid = true) → vc.callsAt .tap = [])

instance (vc : AuthorizationViewController) : Decidable vc.SubmitsScreen :=
  inferInstanceAs (Decidable (_ ∧ _))

/-- The last valid text of a field stays behind the field, so a tap does what it
is meant to do exactly when both texts on the screen are valid or one of the
fields has never held a valid text. -/
theorem tap_submits_screen_iff {email password : Text} {es : List LoginEvent} (h : NoRejection es)
    {past future : List LoginEvent} (hes : es = past ++ .tap :: future) :
    (loginScreen.run (.viewDidLoad email password) past).SubmitsScreen ↔
      ((loginScreen.run (.viewDidLoad email password) past).emailTextField.isValid = true ∧
        (loginScreen.run (.viewDidLoad email password) past).passwordTextField.isValid = true) ∨
      (∀ t ∈ emailTexts email past, t.isValid = false) ∨
      (∀ t ∈ passwordTexts password past, t.isValid = false) := by
  have hpast : NoRejection past := fun call error hm =>
    h call error (hes ▸ List.mem_append_left _ hm)
  have hr := loginScreen_remembers email password past
  obtain ⟨a, ha, hfirst, hsecond⟩ := loginScreen_undisturbed email password hpast
  generalize loginScreen.run (.viewDidLoad email password) past = vc at hr ha ⊢
  have hlatest : a.withLatestFrom.latest = a.logPass.getResult := hr.coherent a ha
  by_cases hv : vc.emailTextField.isValid = true ∧ vc.passwordTextField.isValid = true
  · have hcall := AuthorizationViewController.callsAt_tap_call ha (hr.latest ha hv.1 hv.2)
    exact iff_of_true ⟨fun _ => hcall, fun hn => absurd hv hn⟩ (.inl hv)
  · have hsilent : vc.SubmitsScreen ↔ vc.callsAt .tap = [] :=
      ⟨fun hs => hs.2 hv, fun hs => ⟨fun h' => absurd h' hv, fun _ => hs⟩⟩
    have hnone : vc.callsAt .tap = [] ↔ a.logPass.getResult = none := by
      constructor
      · intro hs
        cases hg : a.logPass.getResult with
        | none => rfl
        | some pair =>
          rw [AuthorizationViewController.callsAt_tap_call ha (hlatest.trans hg)] at hs
          simp at hs
      · intro hg
        refine AuthorizationViewController.callsAt_tap_silent fun a' ha' => ?_
        rw [← Option.some.inj (ha.symm.trans ha'), hlatest, hg]
    rw [hsilent, hnone, Rx.CombineLatest.getResult_eq_none, hfirst, hsecond, Rx.latest_eq_none_iff,
      Rx.latest_eq_none_iff, or_iff_right hv]

def ivan : Text := .ofScalars ['i', 'v', 'a', 'n']

def secret : Text := .ofScalars ['s', 'e', 'c', 'r', 'e', 't']

theorem typed_texts_submitted :
    (loginScreen.run (.viewDidLoad .empty .empty) [.editEmail ivan, .editPassword secret]).SubmitsScreen := by
  have h : NoRejection [.editEmail ivan, .editPassword secret, .tap] := by
    intro call error hm
    simp at hm
  exact (tap_submits_screen_iff h rfl).mpr (.inl (by decide))

theorem stale_login_submitted :
    ¬ ∀ (email password : Text) (es : List LoginEvent), NoRejection es →
      ∀ past future, es = past ++ .tap :: future →
        (loginScreen.run (.viewDidLoad email password) past).SubmitsScreen := by
  intro h
  have hes : NoRejection
      [.editEmail ivan, .editPassword secret, .editEmail (.ofScalars ['i']), .tap] := by
    intro call error hm
    simp at hm
  exact absurd (h .empty .empty _ hes
    [.editEmail ivan, .editPassword secret, .editEmail (.ofScalars ['i'])] [] rfl) (by decide)

end Reservation
