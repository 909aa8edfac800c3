import Reservation.AuthorizationViewController

/-! What the login screen remembers of its fields after any history of edits,
taps and answers, through every new attempt of `retry`. -/

namespace Reservation

def LoginEvent.emailText : LoginEvent → Option Text
  | .editEmail text => some text
  | _ => none

def LoginEvent.passwordText : LoginEvent → Option Text
  | .editPassword text => some text
  | _ => none

def emailTexts (email : Text) (es : List LoginEvent) : List Text :=
  email :: es.filterMap LoginEvent.emailText

def passwordTexts (password : Text) (es : List LoginEvent) : List Text :=
  password :: es.filterMap LoginEvent.passwordText

theorem emailTexts_snoc (email : Text) (es : List LoginEvent) (e : LoginEvent) :
    emailTexts email (es ++ [e]) = emailTexts email es ++ e.emailText.toList := by
  cases h : e.emailText <;> simp [emailTexts, List.filterMap_append, h]

theorem passwordTexts_snoc (password : Text) (es : List LoginEvent) (e : LoginEvent) :
    passwordTexts password (es ++ [e]) = passwordTexts password es ++ e.passwordText.toList := by
  cases h : e.passwordText <;> simp [passwordTexts, List.filterMap_append, h]

/-- The value kept of a field that has held `texts` and holds `current`: it is
a valid text the field has held, and the current one when that is valid. -/
structure Kept (texts : List Text) (current : Text) (kept : Option Text) : Prop where
  held : ∀ t, kept = some t → t ∈ texts ∧ t.isValid = true
  current : current.isValid = true → kept = some current

theorem Kept.edit {texts : List Text} {current : Text} {kept : Option Text}
    (h : Kept texts current kept) (t : Text) :
    Kept (texts ++ [t]) t ((Rx.filter Text.isValid t).or kept) := by
  by_cases hv : t.isValid = true
  · refine ⟨fun u hu => ?_, fun _ => by simp [Rx.filter, hv]⟩
    have hut : t = u := by simpa [Rx.filter, hv] using hu
    exact hut ▸ ⟨by simp, hv⟩
  · refine ⟨fun u hu => ?_, fun ht => absurd ht hv⟩
    have hk := h.held u (by simpa [Rx.filter, hv] using hu)
    exact ⟨List.mem_append_left _ hk.1, hk.2⟩

theorem Kept.fresh {texts : List Text} {t : Text} (ht : t ∈ texts) :
    Kept texts t (Rx.filter Text.isValid t) :=
  ⟨fun u hu => by
    obtain ⟨hv, rfl⟩ := Rx.filter_eq_some.mp hu
    exact ⟨ht, hv⟩, fun hv => Rx.filter_eq_some.mpr ⟨hv, rfl⟩⟩

structure Remembers (email password : Text) (es : List LoginEvent)
    (vc : AuthorizationViewController) : Prop where
  emailHeld : vc.emailTextField ∈ emailTexts email es
  passwordHeld : vc.passwordTextField ∈ passwordTexts password es
  coherent : ∀ a, vc.authResult.subscription = some a → a.Coherent
  first : ∀ a, vc.authResult.subscription = some a →
    Kept (emailTexts email es) vc.emailTextField a.logPass.first
  second : ∀ a, vc.authResult.subscription = some a →
    Kept (passwordTexts password es) vc.passwordTextField a.logPass.second

section

variable {email password : Text} {es : List LoginEvent} {vc : AuthorizationViewController}

theorem Remembers.quiet (h : Remembers email password es vc) {e : LoginEvent}
    {vc' : AuthorizationViewController} (hemail : e.emailText = none)
    (hpassword : e.passwordText = none) (hf : vc'.emailTextField = vc.emailTextField)
    (hp : vc'.passwordTextField = vc.passwordTextField)
    (hs : ∀ a', vc'.authResult.subscription = some a' → ∃ a, vc.authResult.subscription = some a ∧
      a'.logPass = a.logPass ∧ a'.withLatestFrom = a.withLatestFrom) :
    Remembers email password (es ++ [e]) vc' := by
  have hem : emailTexts email (es ++ [e]) = emailTexts email es := by simp [emailTexts_snoc, hemail]
  have hpm : passwordTexts password (es ++ [e]) = passwordTexts password es := by
    simp [passwordTexts_snoc, hpassword]
  have hemail' : vc'.emailTextField ∈ emailTexts email (es ++ [e]) := by
    rw [hem, hf]
    exact h.emailHeld
  have hpassword' : vc'.passwordTextField ∈ passwordTexts password (es ++ [e]) := by
    rw [hpm, hp]
    exact h.passwordHeld
  refine ⟨hemail', hpassword', ?_, ?_, ?_⟩
  · intro a' ha'
    obtain ⟨a, ha, hlog, hlat⟩ := hs a' ha'
    have hc : a.withLatestFrom.latest = a.logPass.getResult := h.coherent a ha
    rw [AuthResult.Coherent, hlat, hlog, hc]
  · intro a' ha'
    obtain ⟨a, ha, hlog, _⟩ := hs a' ha'
    rw [hem, hf, hlog]
    exact h.first a ha
  · intro a' ha'
    obtain ⟨a, ha, hlog, _⟩ := hs a' ha'
    rw [hpm, hp, hlog]
    exact h.second a ha

theorem Remembers.editEmail (h : Remembers email password es vc) (t : Text) :
    Remembers email password (es ++ [.editEmail t]) (vc.step (.editEmail t)).1 := by
  have hem : emailTexts email (es ++ [.editEmail t]) = emailTexts email es ++ [t] :=
    emailTexts_snoc email es _
  have hpm : passwordTexts password (es ++ [.editEmail t]) = passwordTexts password es := by
    simp [passwordTexts_snoc, LoginEvent.passwordText]
  have hemail : t ∈ emailTexts email (es ++ [.editEmail t]) := by
    rw [hem]
    exact List.mem_append_right _ (List.mem_singleton_self t)
  have hpassword : vc.passwordTextField ∈ passwordTexts password (es ++ [.editEmail t]) := by
    rw [hpm]
    exact h.passwordHeld
  refine ⟨hemail, hpassword, ?_, ?_, ?_⟩
  · intro a' ha'
    obtain ⟨a, ha, rfl⟩ := Option.map_eq_some_iff.mp ha'
    exact (h.coherent a ha).loginText t
  · intro a' ha'
    obtain ⟨a, ha, rfl⟩ := Option.map_eq_some_iff.mp ha'
    rw [hem, AuthResult.loginText_first]
    exact (h.first a ha).edit t
  · intro a' ha'
    obtain ⟨a, ha, rfl⟩ := Option.map_eq_some_iff.mp ha'
    rw [hpm, AuthResult.loginText_second]
    exact h.second a ha

theorem Remembers.editPassword (h : Remembers email password es vc) (t : Text) :
    Remembers email password (es ++ [.editPassword t]) (vc.step (.editPassword t)).1 := by
  have hem : emailTexts email (es ++ [.editPassword t]) = emailTexts email es := by
    simp [emailTexts_snoc, LoginEvent.emailText]
  have hpm : passwordTexts password (es ++ [.editPassword t]) = passwordTexts password es ++ [t] :=
    passwordTexts_snoc password es _
  have hemail : vc.emailTextField ∈ emailTexts email (es ++ [.editPassword t]) := by
    rw [hem]
    exact h.emailHeld
  have hpassword : t ∈ passwordTexts password (es ++ [.editPassword t]) := by
    rw [hpm]
    exact List.mem_append_right _ (List.mem_singleton_self t)
  refine ⟨hemail, hpassword, ?_, ?_, ?_⟩
  · intro a' ha'
    obtain ⟨a, ha, rfl⟩ := Option.map_eq_some_iff.mp ha'
    exact (h.coherent a ha).passwordText t
  · intro a' ha'
    obtain ⟨a, ha, rfl⟩ := Option.map_eq_some_iff.mp ha'
    rw [hem, AuthResult.passwordText_first]
    exact h.first a ha
  · intro a' ha'
    obtain ⟨a, ha, rfl⟩ := Option.map_eq_some_iff.mp ha'
    rw [hpm, AuthResult.passwordText_second]
    exact (h.second a ha).edit t

theorem Remembers.moveNext (h : Remembers email password es vc) (call : Nat) (error : NSError)
    (pending : List Nat) :
    Remembers email password (es ++ [.completion call (some error)])
      { vc with
        authResult := vc.authResult.moveNext (.subscribe vc.emailTextField vc.passwordTextField)
        pending := pending } := by
  have hem : emailTexts email (es ++ [.completion call (some error)]) = emailTexts email es := by
    simp [emailTexts_snoc, LoginEvent.emailText]
  have hpm : passwordTexts password (es ++ [.completion call (some error)]) =
      passwordTexts password es := by simp [passwordTexts_snoc, LoginEvent.passwordText]
  have hnew : ∀ a, (vc.authResult.moveNext
      (.subscribe vc.emailTextField vc.passwordTextField)).subscription = some a →
      a = .subscribe vc.emailTextField vc.passwordTextField := by
    intro a ha
    rw [Rx.Retry.moveNext_subscription] at ha
    split at ha
    · simp at ha
    · exact (Option.some.inj ha).symm
  have hemail : vc.emailTextField ∈ emailTexts email (es ++ [.completion call (some error)]) := by
    rw [hem]
    exact h.emailHeld
  have hpassword :
      vc.passwordTextField ∈ passwordTexts password (es ++ [.completion call (some error)]) := by
    rw [hpm]
    exact h.passwordHeld
  refine ⟨hemail, hpassword, ?_, ?_, ?_⟩
  · intro a ha
    rw [hnew a ha]
    exact AuthResult.subscribe_coherent _ _
  · intro a ha
    rw [hem, hnew a ha, AuthResult.subscribe_first]
    exact Kept.fresh h.emailHeld
  · intro a ha
    rw [hpm, hnew a ha, AuthResult.subscribe_second]
    exact Kept.fresh h.passwordHeld

theorem Remembers.step (h : Remembers email password es vc) (e : LoginEvent) :
    Remembers email password (es ++ [e]) (vc.step e).1 := by
  have hstep := vc.step_cases e
  generalize vc.step e = next at hstep ⊢
  cases hstep with
  | editEmail t => exact h.editEmail t
  | editPassword t => exact h.editPassword t
  | silent => exact h.quiet rfl rfl rfl rfl fun a' ha' => ⟨a', ha', rfl, rfl⟩
  | call hs _ =>
    refine h.quiet rfl rfl rfl rfl ?_
    rintro a' ⟨⟩
    exact ⟨_, hs, rfl, rfl⟩
  | unknown _ => exact h.quiet rfl rfl rfl rfl fun a' ha' => ⟨a', ha', rfl, rfl⟩
  | dropped _ _ => exact h.quiet rfl rfl rfl rfl fun a' ha' => ⟨a', ha', rfl, rfl⟩
  | success _ hs _ =>
    refine h.quiet rfl rfl rfl rfl ?_
    rintro a' ⟨⟩
    exact ⟨_, hs, rfl, rfl⟩
  | rejected _ _ _ => exact h.moveNext _ _ _

end

theorem viewDidLoad_remembers (email password : Text) :
    Remembers email password [] (.viewDidLoad email password) := by
  have hemail : email ∈ emailTexts email [] := List.mem_singleton_self email
  have hpassword : password ∈ passwordTexts password [] := List.mem_singleton_self password
  refine ⟨hemail, hpassword, ?_, ?_, ?_⟩
  · rintro a ⟨⟩
    exact AuthResult.subscribe_coherent email password
  · rintro a ⟨⟩
    rw [AuthResult.subscribe_first]
    exact Kept.fresh hemail
  · rintro a ⟨⟩
    rw [AuthResult.subscribe_second]
    exact Kept.fresh hpassword

theorem loginScreen_remembers (email password : Text) (es : List LoginEvent) :
    Remembers email password es (loginScreen.run (.viewDidLoad email password) es) :=
  loginScreen.run_invariant (viewDidLoad_remembers email password) (fun _ e h => h.step e) es

theorem Remembers.call {email password : Text} {es : List LoginEvent}
    {vc : AuthorizationViewController} (h : Remembers email password es vc) {a : AuthResult}
    {u v : Text} (hs : vc.authResult.subscription = some a)
    (hl : a.withLatestFrom.latest = some (u, v)) :
    (u ∈ emailTexts email es ∧ u.isValid = true) ∧ (v ∈ passwordTexts password es ∧ v.isValid = true) := by
  have hc : a.withLatestFrom.latest = a.logPass.getResult := h.coherent a hs
  obtain ⟨hu, hv⟩ := Rx.CombineLatest.getResult_eq_some.mp (hc.symm.trans hl)
  exact ⟨(h.first a hs).held u hu, (h.second a hs).held v hv⟩

theorem Remembers.latest {email password : Text} {es : List LoginEvent}
    {vc : AuthorizationViewController} (h : Remembers email password es vc) {a : AuthResult}
    (hs : vc.authResult.subscription = some a) (hu : vc.emailTextField.isValid = true)
    (hv : vc.passwordTextField.isValid = true) :
    a.withLatestFrom.latest = some (vc.emailTextField, vc.passwordTextField) := by
  have hc : a.withLatestFrom.latest = a.logPass.getResult := h.coherent a hs
  rw [hc, Rx.CombineLatest.getResult_eq_some]
  exact ⟨(h.first a hs).current hu, (h.second a hs).current hv⟩

end Reservation
