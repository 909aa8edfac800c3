import Reservation.LoginCalls

/-! The three attempts of `retry(3)`. The screen listens to its button as long
as fewer than three sign-ins have been rejected; after that no tap does anything. -/

namespace Reservation

def LoginEvent.isRejection : LoginEvent → Bool
  | .completion _ (some _) => true
  | _ => false

def rejections (es : List LoginEvent) : Nat := es.countP LoginEvent.isRejection

theorem rejections_snoc (es : List LoginEvent) (e : LoginEvent) :
    rejections (es ++ [e]) = rejections es + if e.isRejection then 1 else 0 := by
  simp [rejections, List.countP_append, List.countP_singleton]

def AuthorizationViewController.answers (vc : AuthorizationViewController) : LoginEvent → Bool
  | .completion call _ => decide (call ∈ vc.pending)
  | _ => true

def Answers (email password : Text) : List LoginEvent → Prop :=
  Machine.AtEach fun past e => (loginScreen.run (.viewDidLoad email password) past).answers e = true

def OneAtATime (email password : Text) : List LoginEvent → Prop :=
  Machine.AtEach fun past e =>
    e = .tap → (loginScreen.run (.viewDidLoad email password) past).pending = []

instance (email password : Text) (es : List LoginEvent) : Decidable (Answers email password es) :=
  Machine.decidableAtEach _ es

instance (email password : Text) (es : List LoginEvent) : Decidable (OneAtATime email password es) :=
  Machine.decidableAtEach _ es

/-- One call at most is pending. Either the screen has a subscription, which
listens to it, and the attempts left and the rejections make up two; or the
third rejection has come. -/
def Attempts (es : List LoginEvent) (vc : AuthorizationViewController) : Prop :=
  vc.pending.length ≤ 1 ∧
    ((∃ a, vc.authResult.subscription = some a ∧ vc.authResult.remaining + rejections es = 2 ∧
        ∀ call ∈ vc.pending, call ∈ a.flatMap.group) ∨
      (vc.authResult.subscription = none ∧ vc.pending = [] ∧ 3 ≤ rejections es))

theorem Attempts.map {es : List LoginEvent} {vc vc' : AuthorizationViewController}
    (h : Attempts es vc) {e : LoginEvent} (he : e.isRejection = false) (f : AuthResult → AuthResult)
    (hf : ∀ a, (f a).flatMap = a.flatMap) (hs : vc'.authResult = vc.authResult.map f)
    (hp : vc'.pending = vc.pending) : Attempts (es ++ [e]) vc' := by
  have hr : rejections (es ++ [e]) = rejections es := by simp [rejections_snoc, he]
  rw [Attempts, hp, hr]
  refine ⟨h.1, ?_⟩
  rcases h.2 with ⟨a, ha, hleft, hg⟩ | ⟨hnone, hempty, hmany⟩
  · have hsubscribed : vc'.authResult.subscription = some (f a) := by simp [hs, ha]
    have hremaining : vc'.authResult.remaining = vc.authResult.remaining := by rw [hs, Rx.Retry.map_remaining]
    refine .inl ⟨f a, hsubscribed, hremaining ▸ hleft, fun call hc => ?_⟩
    rw [hf]
    exact hg call hc
  · have hended : vc'.authResult.subscription = none := by simp [hs, hnone]
    exact .inr ⟨hended, hempty, hmany⟩

theorem Attempts.listening {es : List LoginEvent} {vc : AuthorizationViewController}
    (h : Attempts es vc) {call : Nat} (hp : call ∈ vc.pending) :
    ∃ a, vc.authResult.subscription = some a ∧ vc.authResult.remaining + rejections es = 2 ∧
      call ∈ a.flatMap.group ∧ vc.pending.erase call = [] := by
  obtain ⟨only, hone⟩ := List.length_eq_one_iff.mp (Nat.le_antisymm h.1 (List.length_pos_of_mem hp))
  obtain ⟨a, ha, hleft, hg⟩ := h.2.resolve_right fun hdead => by simp [hdead.2.1] at hp
  have hcall : call = only := by simpa [hone] using hp
  exact ⟨a, ha, hleft, hg call hp, by simp [hone, hcall]⟩

theorem Attempts.step {es : List LoginEvent} {vc : AuthorizationViewController} (h : Attempts es vc)
    {e : LoginEvent} (hone : e = .tap → vc.pending = []) (hans : vc.answers e = true) :
    Attempts (es ++ [e]) (vc.step e).1 := by
  have hr := rejections_snoc es e
  have hstep := vc.step_cases e
  generalize vc.step e = next at hstep ⊢
  cases hstep with
  | editEmail t => exact h.map rfl (·.loginText t) (fun a => a.loginText_flatMap t) rfl rfl
  | editPassword t => exact h.map rfl (·.passwordText t) (fun a => a.passwordText_flatMap t) rfl rfl
  | silent =>
    simp only [LoginEvent.isRejection, Bool.false_eq_true, if_false, Nat.add_zero] at hr
    simpa only [Attempts, hr] using h
  | call hs _ =>
    simp only [LoginEvent.isRejection, Bool.false_eq_true, if_false, Nat.add_zero] at hr
    have hp := hone rfl
    refine ⟨by simp [hp], .inl ⟨_, rfl, ?_, ?_⟩⟩
    · rcases h.2 with ⟨_, _, hleft, _⟩ | ⟨hnone, _, _⟩
      · rw [hr]
        exact hleft
      · rw [hs] at hnone
        exact absurd hnone (Option.some_ne_none _)
    · intro call hc
      have hcall : call = vc.calls := by simpa [hp] using hc
      simp [Rx.FlatMap.subscribeInner, hcall]
  | unknown hp => exact absurd (of_decide_eq_true hans) hp
  | dropped hp hl =>
    obtain ⟨a, ha, _, hg, _⟩ := h.listening hp
    rw [AuthorizationViewController.isListening_iff.mpr ⟨a, ha, hg⟩] at hl
    simp at hl
  | success hp hs hg =>
    simp only [LoginEvent.isRejection, Bool.false_eq_true, if_false, Nat.add_zero] at hr
    obtain ⟨a, ha, hleft, _, herase⟩ := h.listening hp
    rw [← hr] at hleft
    exact ⟨by simp [herase], .inl ⟨_, rfl, hleft, by simp [herase]⟩⟩
  | rejected hp hs hg =>
    simp only [LoginEvent.isRejection, if_true] at hr
    obtain ⟨a, ha, hleft, _, herase⟩ := h.listening hp
    refine ⟨by simp [herase], ?_⟩
    by_cases hz : vc.authResult.remaining = 0
    · exact .inr ⟨by simp [Rx.Retry.moveNext_subscription, hz], herase, by omega⟩
    · refine .inl ⟨.subscribe vc.emailTextField vc.passwordTextField,
        by simp [Rx.Retry.moveNext_subscription, hz], ?_, by simp [herase]⟩
      simp only [Rx.Retry.moveNext_remaining]
      omega

theorem loginScreen_attempts {email password : Text} {es : List LoginEvent}
    (hone : OneAtATime email password es) (hans : Answers email password es) :
    Attempts es (loginScreen.run (.viewDidLoad email password) es) := by
  apply loginScreen.run_invariant_of (P := Attempts)
    (H := fun es => OneAtATime email password es ∧ Answers email password es)
    (fun es e h => ⟨h.1.append_left, h.2.append_left⟩)
  · exact ⟨Nat.zero_le 1, .inl ⟨_, rfl, rfl, by simp [AuthorizationViewController.viewDidLoad]⟩⟩
  · exact fun es e h hi => hi.step h.1.last h.2.last
  · exact ⟨hone, hans⟩

/-- With both texts valid and every call answered before the next tap, a tap
makes a call exactly as long as fewer than three sign-ins have been rejected, and
it makes it with the texts on the screen. -/
theorem tap_calls_iff_rejections_lt {email password : Text} {es : List LoginEvent}
    (hone : OneAtATime email password es) (hans : Answers email password es)
    {past future : List LoginEvent} (hes : es = past ++ .tap :: future)
    (hemail : (loginScreen.run (.viewDidLoad email password) past).emailTextField.isValid = true)
    (hpassword : (loginScreen.run (.viewDidLoad email password) past).passwordTextField.isValid = true) :
    ((loginScreen.run (.viewDidLoad email password) past).callsAt .tap ≠ [] ↔ rejections past < 3) ∧
      ∀ call ∈ (loginScreen.run (.viewDidLoad email password) past).callsAt .tap,
        call.2 = ⟨.authService, (loginScreen.run (.viewDidLoad email password) past).emailTextField,
          (loginScreen.run (.viewDidLoad email password) past).passwordTextField⟩ := by
  subst hes
  have hi := loginScreen_attempts hone.append_left hans.append_left
  have hr := loginScreen_remembers email password past
  generalize loginScreen.run (.viewDidLoad email password) past = vc at hemail hpassword hi hr ⊢
  rcases hi.2 with ⟨a, ha, hleft, _⟩ | ⟨hnone, _, hmany⟩
  · have hcall := AuthorizationViewController.callsAt_tap_call ha (hr.latest ha hemail hpassword)
    have hfew : rejections past < 3 := by omega
    refine ⟨by simp [hcall, hfew], fun call hmem => ?_⟩
    rw [hcall, List.mem_singleton] at hmem
    rw [hmem]
  · have hsilent : vc.callsAt .tap = [] :=
      AuthorizationViewController.callsAt_tap_silent (by simp [hnone])
    have hfew : ¬ rejections past < 3 := by omega
    exact ⟨by simp [hsilent, hfew], by simp [hsilent]⟩

def wrongPasswords (count : Nat) : List LoginEvent :=
  .editEmail ivan :: .editPassword secret ::
    (List.range count).flatMap fun call => [.tap, .completion call (some ⟨17009⟩)]

theorem third_attempt_calls :
    (loginScreen.run (.viewDidLoad .empty .empty) (wrongPasswords 2)).callsAt .tap ≠ [] := by
  have hone : OneAtATime .empty .empty (wrongPasswords 2 ++ [.tap]) := by decide
  have hans : Answers .empty .empty (wrongPasswords 2 ++ [.tap]) := by decide
  exact (tap_calls_iff_rejections_lt hone hans rfl (by decide) (by decide)).1.mpr (by decide)

theorem fourth_attempt_silent :
    ¬ ∀ (email password : Text) (es : List LoginEvent), OneAtATime email password es →
      Answers email password es → ∀ past future, es = past ++ .tap :: future →
        (loginScreen.run (.viewDidLoad email password) past).emailTextField.isValid = true →
        (loginScreen.run (.viewDidLoad email password) past).passwordTextField.isValid = true →
          (loginScreen.run (.viewDidLoad email password) past).callsAt .tap ≠ [] := by
  intro h
  have hone : OneAtATime .empty .empty (wrongPasswords 3 ++ [.tap]) := by decide
  have hans : Answers .empty .empty (wrongPasswords 3 ++ [.tap]) := by decide
  exact h .empty .empty _ hone hans (wrongPasswords 3) [] rfl (by decide) (by decide) (by decide)

end Reservation
