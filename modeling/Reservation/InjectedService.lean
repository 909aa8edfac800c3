import Reservation.AuthTransform
import Reservation.LoginCalls

/-! What a subscription to `transform` owes to the service the view model was
given, and when it keeps to it. -/

namespace Reservation

namespace AuthInput

def newLogin : AuthInput → Option Text
  | loginText text => some text
  | _ => none

def newPassword : AuthInput → Option Text
  | passwordText text => some text
  | _ => none

def isError : AuthInput → Bool
  | response _ (.error _) => true
  | _ => false

end AuthInput

def currentLogin (login : Text) (past : List AuthInput) : Text :=
  (past.filterMap AuthInput.newLogin).getLastD login

def currentPassword (password : Text) (past : List AuthInput) : Text :=
  (past.filterMap AuthInput.newPassword).getLastD password

/-- What the subscription owes to a view model that was given `service`: until
the first error a call of this service at every tap, with the current texts, and
every success and the error as they are reported; nothing after that. -/
def owed (service : AuthServiceProtocol) (login password : Text) (past : List AuthInput) :
    AuthInput → List AuthOutput
  | .loginText _ => []
  | .passwordText _ => []
  | .authButtonTapped =>
    if past.any AuthInput.isError then []
    else [.signIn (past.count .authButtonTapped)
      ⟨service, currentLogin login past, currentPassword password past⟩]
  | .response _ .completed => []
  | .response _ event => if past.any AuthInput.isError then [] else [.event event]

section

variable (viewModel : AuthViewModel) (login password : Text)

def RunsService (service : AuthServiceProtocol) : List AuthInput → Prop :=
  Machine.AtEach fun past e =>
    viewModel.transform.emit (.subscribe login password) past e = owed service login password past e

def ValidTap (past : List AuthInput) (e : AuthInput) : Prop :=
  e = .authButtonTapped →
    (currentLogin login past).isValid = true ∧ (currentPassword password past).isValid = true

def ValidTaps : List AuthInput → Prop := Machine.AtEach (ValidTap login password)

def AuthSubscription.answers (s : AuthSubscription) : AuthInput → Bool
  | .response call _ => decide (call ∈ s.pending)
  | _ => true

def Responds : List AuthInput → Prop :=
  Machine.AtEach fun past e =>
    (viewModel.transform.run (.subscribe login password) past).answers e = true

instance (past : List AuthInput) (e : AuthInput) : Decidable (ValidTap login password past e) :=
  inferInstanceAs (Decidable (_ → _))

instance (es : List AuthInput) : Decidable (ValidTaps login password es) := Machine.decidableAtEach _ es

instance (es : List AuthInput) : Decidable (Responds viewModel login password es) :=
  Machine.decidableAtEach _ es

end

theorem currentLogin_snoc (login : Text) (past : List AuthInput) (e : AuthInput) :
    currentLogin login (past ++ [e]) = e.newLogin.getD (currentLogin login past) := by
  cases h : e.newLogin <;> simp [currentLogin, List.filterMap_append, h]

theorem currentPassword_snoc (password : Text) (past : List AuthInput) (e : AuthInput) :
    currentPassword password (past ++ [e]) = e.newPassword.getD (currentPassword password past) := by
  cases h : e.newPassword <;> simp [currentPassword, List.filterMap_append, h]

/-- Before the first error the operators hold the current texts where these are
valid, and the open inner sequences are the calls that have not ended. -/
structure Listens (login password : Text) (past : List AuthInput) (s : AuthSubscription)
    (a : AuthResult) : Prop where
  subscribed : s.authResult = some a
  coherent : a.Coherent
  first : (currentLogin login past).isValid = true → a.logPass.first = some (currentLogin login past)
  second : (currentPassword password past).isValid = true →
    a.logPass.second = some (currentPassword password past)
  calls : s.calls = past.count .authButtonTapped
  pending : s.pending = a.flatMap.group

structure Follows (login password : Text) (past : List AuthInput) (s : AuthSubscription) : Prop where
  listens : past.any AuthInput.isError = false → ∃ a, Listens login password past s a
  ended : past.any AuthInput.isError = true → s.authResult = none

section

variable {login password : Text} {past : List AuthInput} {s : AuthSubscription} {a : AuthResult}

theorem Listens.latest (h : Listens login password past s a)
    (hlogin : (currentLogin login past).isValid = true)
    (hpassword : (currentPassword password past).isValid = true) :
    a.withLatestFrom.latest = some (currentLogin login past, currentPassword password past) := by
  have hcoherent : a.withLatestFrom.latest = a.logPass.getResult := h.coherent
  rw [hcoherent, Rx.CombineLatest.getResult_eq_some]
  exact ⟨h.first hlogin, h.second hpassword⟩

theorem Listens.tap (h : Listens login password past s a)
    (hlogin : (currentLogin login past).isValid = true)
    (hpassword : (currentPassword password past).isValid = true) :
    s.authButtonTapped =
      (⟨some { a with flatMap := a.flatMap.subscribeInner s.calls }, s.pending ++ [s.calls], s.calls + 1⟩,
        [.signIn s.calls ⟨.authService, currentLogin login past, currentPassword password past⟩]) := by
  simp only [AuthSubscription.authButtonTapped, h.subscribed, AuthResult.authButtonTapped,
    Rx.WithLatestFrom.first, h.latest hlogin hpassword]

theorem Listens.listening (h : Listens login password past s a) {call : Nat}
    {event : Rx.Event NSError Unit} (hanswers : s.answers (.response call event) = true) :
    call ∈ a.flatMap.group := h.pending ▸ of_decide_eq_true hanswers

theorem Listens.loginText (h : Listens login password past s a) (text : Text) :
    Listens login password (past ++ [.loginText text]) (s.step (.loginText text)).1 (a.loginText text) := by
  refine ⟨by simp [AuthSubscription.step, h.subscribed], h.coherent.loginText text, ?_, ?_, ?_, ?_⟩
  · intro hv
    rw [currentLogin_snoc] at hv ⊢
    have hvalid : text.isValid = true := hv
    simp [AuthResult.loginText_first, Rx.filter, hvalid, AuthInput.newLogin]
  · intro hv
    rw [currentPassword_snoc] at hv ⊢
    rw [AuthResult.loginText_second]
    exact h.second hv
  · simpa [AuthSubscription.step, List.count_append] using h.calls
  · simpa [AuthSubscription.step] using h.pending

theorem Listens.passwordText (h : Listens login password past s a) (text : Text) :
    Listens login password (past ++ [.passwordText text]) (s.step (.passwordText text)).1
      (a.passwordText text) := by
  refine ⟨by simp [AuthSubscription.step, h.subscribed], h.coherent.passwordText text, ?_, ?_, ?_, ?_⟩
  · intro hv
    rw [currentLogin_snoc] at hv ⊢
    rw [AuthResult.passwordText_first]
    exact h.first hv
  · intro hv
    rw [currentPassword_snoc] at hv ⊢
    have hvalid : text.isValid = true := hv
    simp [AuthResult.passwordText_second, Rx.filter, hvalid, AuthInput.newPassword]
  · simpa [AuthSubscription.step, List.count_append] using h.calls
  · simpa [AuthSubscription.step] using h.pending

/-- A step that edits no text keeps what the operators hold of the texts. -/
theorem Listens.quiet (h : Listens login password past s a) {e : AuthInput}
    {s' : AuthSubscription} {a' : AuthResult} (hlogin : e.newLogin = none)
    (hpassword : e.newPassword = none) (hs : s'.authResult = some a')
    (hlog : a'.logPass = a.logPass) (hlatest : a'.withLatestFrom = a.withLatestFrom)
    (hcalls : s'.calls = (past ++ [e]).count .authButtonTapped)
    (hpending : s'.pending = a'.flatMap.group) : Listens login password (past ++ [e]) s' a' := by
  have hcoherent : a'.Coherent := by
    rw [AuthResult.Coherent, hlatest, hlog]
    exact h.coherent
  refine ⟨hs, hcoherent, ?_, ?_, hcalls, hpending⟩
  · rw [currentLogin_snoc, hlogin, hlog]
    exact h.first
  · rw [currentPassword_snoc, hpassword, hlog]
    exact h.second

theorem Listens.step (h : Listens login password past s a) {e : AuthInput}
    (hvalid : ValidTap login password past e)
    (hanswers : s.answers e = true) (he : e.isError = false) :
    ∃ a', Listens login password (past ++ [e]) (s.step e).1 a' := by
  cases e with
  | loginText text => exact ⟨_, h.loginText text⟩
  | passwordText text => exact ⟨_, h.passwordText text⟩
  | authButtonTapped =>
    rw [AuthSubscription.step, h.tap (hvalid rfl).1 (hvalid rfl).2]
    refine ⟨_, h.quiet rfl rfl rfl rfl rfl ?_ ?_⟩
    · simp [h.calls, List.count_append]
    · simp [h.pending, Rx.FlatMap.subscribeInner]
  | response call event =>
    have hcount : s.calls = (past ++ [AuthInput.response call event]).count .authButtonTapped := by
      simp [List.count_append, h.calls]
    cases event with
    | next element =>
      rw [AuthSubscription.step, AuthSubscription.response_success h.subscribed (h.listening hanswers)]
      exact ⟨a, h.quiet rfl rfl h.subscribed rfl rfl hcount h.pending⟩
    | error error => simp [AuthInput.isError] at he
    | completed =>
      rw [AuthSubscription.step, AuthSubscription.response_completed h.subscribed]
      refine ⟨_, h.quiet rfl rfl rfl rfl rfl hcount ?_⟩
      exact congrArg (List.erase · call) h.pending

theorem Listens.emits (h : Listens login password past s a) {e : AuthInput}
    (hvalid : ValidTap login password past e)
    (hanswers : s.answers e = true) (hpast : past.any AuthInput.isError = false) :
    (s.step e).2 = owed .authService login password past e := by
  cases e with
  | loginText text => rfl
  | passwordText text => rfl
  | authButtonTapped =>
    rw [AuthSubscription.step, h.tap (hvalid rfl).1 (hvalid rfl).2, owed, hpast, h.calls]
    rfl
  | response call event =>
    cases event with
    | next element =>
      rw [AuthSubscription.step, AuthSubscription.response_success h.subscribed (h.listening hanswers), owed,
        hpast]
      · rfl
      · simp
    | error error =>
      rw [AuthSubscription.step, AuthSubscription.response_error h.subscribed (h.listening hanswers), owed,
        hpast]
      · rfl
      · simp
    | completed => rw [AuthSubscription.step, AuthSubscription.response_completed h.subscribed, owed]

theorem Listens.isError (h : Listens login password past s a) {e : AuthInput}
    (hanswers : s.answers e = true) (he : e.isError = true) : (s.step e).1.authResult = none := by
  cases e with
  | response call event =>
    cases event with
    | error error => rw [AuthSubscription.step, AuthSubscription.response_error h.subscribed (h.listening hanswers)]
    | _ => simp [AuthInput.isError] at he
  | _ => simp [AuthInput.isError] at he

theorem step_ended (h : s.authResult = none) (e : AuthInput) :
    (s.step e).1.authResult = none ∧ (s.step e).2 = [] := by
  cases e with
  | loginText text => simp [AuthSubscription.step, h]
  | passwordText text => simp [AuthSubscription.step, h]
  | authButtonTapped => simp [AuthSubscription.step, AuthSubscription.authButtonTapped, h]
  | response call event => simp [AuthSubscription.step, AuthSubscription.response, h]

theorem owed_ended (service : AuthServiceProtocol) (h : past.any AuthInput.isError = true)
    (e : AuthInput) : owed service login password past e = [] := by
  cases e with
  | response call event => cases event <;> simp [owed, h]
  | _ => simp [owed, h]

theorem Follows.step (h : Follows login password past s) {e : AuthInput}
    (hvalid : ValidTap login password past e)
    (hanswers : s.answers e = true) : Follows login password (past ++ [e]) (s.step e).1 := by
  have hsnoc : (past ++ [e]).any AuthInput.isError = (past.any AuthInput.isError || e.isError) := by
    simp
  constructor
  · intro hnone
    rw [hsnoc, Bool.or_eq_false_iff] at hnone
    obtain ⟨a, ha⟩ := h.listens hnone.1
    exact ha.step hvalid hanswers hnone.2
  · intro hsome
    rw [hsnoc, Bool.or_eq_true] at hsome
    by_cases hpast : past.any AuthInput.isError = true
    · exact (step_ended (h.ended hpast) e).1
    · obtain ⟨a, ha⟩ := h.listens (Bool.eq_false_iff.mpr hpast)
      exact ha.isError hanswers (hsome.resolve_left hpast)

theorem Follows.emits (h : Follows login password past s) {e : AuthInput}
    (hvalid : ValidTap login password past e)
    (hanswers : s.answers e = true) : (s.step e).2 = owed .authService login password past e := by
  by_cases hpast : past.any AuthInput.isError = true
  · rw [(step_ended (h.ended hpast) e).2, owed_ended _ hpast]
  · obtain ⟨a, ha⟩ := h.listens (Bool.eq_false_iff.mpr hpast)
    exact ha.emits hvalid hanswers (Bool.eq_false_iff.mpr hpast)

end

theorem subscribe_listens (login password : Text) :
    Listens login password [] (.subscribe login password) (.subscribe login password) := by
  refine ⟨rfl, AuthResult.subscribe_coherent login password, fun hv => ?_, fun hv => ?_, rfl, ?_⟩
  · rw [AuthResult.subscribe_first]
    exact Rx.filter_eq_some.mpr ⟨hv, rfl⟩
  · rw [AuthResult.subscribe_second]
    exact Rx.filter_eq_some.mpr ⟨hv, rfl⟩
  · rw [AuthResult.subscribe_group]
    rfl

section

variable (viewModel : AuthViewModel) {login password : Text} {es : List AuthInput}

theorem transform_follows (hvalid : ValidTaps login password es)
    (hresponses : Responds viewModel login password es) :
    Follows login password es (viewModel.transform.run (.subscribe login password) es) := by
  refine viewModel.transform.run_invariant_of
    (H := fun es => ValidTaps login password es ∧ Responds viewModel login password es)
    (P := Follows login password) ?_ ?_ ?_ es ⟨hvalid, hresponses⟩
  · exact fun es e h => ⟨h.1.append_left, h.2.append_left⟩
  · exact ⟨fun _ => ⟨_, subscribe_listens login password⟩, fun h => Bool.noConfusion h⟩
  · exact fun es e h hi => hi.step h.1.last h.2.last

/-- Without a tap there is no call, so there is no sequence left to answer. -/
theorem transform_pending (es : List AuthInput) (htap : .authButtonTapped ∉ es) :
    (viewModel.transform.run (.subscribe login password) es).pending = [] := by
  refine viewModel.transform.run_invariant_of (H := fun es => .authButtonTapped ∉ es)
    (P := fun _ s => s.pending = []) ?_ rfl ?_ es htap
  · exact fun es e h hmem => h (List.mem_append_left _ hmem)
  · intro es e h hi
    generalize viewModel.transform.run (.subscribe login password) es = s at hi ⊢
    cases e with
    | loginText text => exact hi
    | passwordText text => exact hi
    | authButtonTapped => exact absurd (List.mem_append_right es (List.mem_singleton_self _)) h
    | response call event =>
      have hstill : s.stillPending call event = [] := by
        cases event <;> simp [AuthSubscription.stillPending, hi]
      change (s.response call event).1.pending = []
      rw [AuthSubscription.response]
      split
      · exact hstill
      · dsimp only
        split <;> exact hstill

theorem untapped_edits {past : List AuthInput} {e : AuthInput} (htap : .authButtonTapped ∉ past)
    (hanswers : (viewModel.transform.run (.subscribe login password) past).answers e = true)
    (he : e ≠ .authButtonTapped) : (∃ text, e = .loginText text) ∨ ∃ text, e = .passwordText text := by
  cases e with
  | loginText text => exact .inl ⟨text, rfl⟩
  | passwordText text => exact .inr ⟨text, rfl⟩
  | authButtonTapped => exact absurd rfl he
  | response call event =>
    simp [AuthSubscription.answers, transform_pending viewModel past htap] at hanswers

theorem untapped_no_error (hresponses : Responds viewModel login password es)
    (htap : .authButtonTapped ∉ es) : es.any AuthInput.isError = false := by
  rw [List.any_eq_false]
  intro e he
  obtain ⟨past, future, rfl⟩ := List.append_of_mem he
  have hpast : .authButtonTapped ∉ past := fun hmem => htap (List.mem_append_left _ hmem)
  have hne : e ≠ .authButtonTapped := fun heq => htap (heq ▸ he)
  rcases untapped_edits viewModel hpast (hresponses past e future rfl) hne with
    ⟨text, rfl⟩ | ⟨text, rfl⟩ <;> simp [AuthInput.isError]

/-- At every event of a run the outputs are those owed to `AuthService`. -/
theorem transform_emits (hvalid : ValidTaps login password es) (hresponses : Responds viewModel login password es)
    {past future : List AuthInput} {e : AuthInput} (hes : es = past ++ e :: future) :
    viewModel.transform.emit (.subscribe login password) past e =
      owed .authService login password past e := by
  have htap := hvalid past e future hes
  have hanswers := hresponses past e future hes
  subst hes
  exact (transform_follows viewModel hvalid.append_left hresponses.append_left).emits htap hanswers

/-- The injected service is run when it is the one the view model makes for
itself, and otherwise only as long as nobody taps. -/
theorem runs_injected_service_iff (hvalid : ValidTaps login password es)
    (hresponses : Responds viewModel login password es) :
    RunsService viewModel login password viewModel.authService es ↔
      viewModel.authService = .authService ∨ .authButtonTapped ∉ es := by
  constructor
  · intro hruns
    by_cases htap : .authButtonTapped ∈ es
    · -- at the first tap no error has been reported, since no call has been made
      obtain ⟨before, after, hes, hfirst⟩ := List.eq_append_cons_of_mem htap
      have hcall := transform_emits viewModel hvalid hresponses hes
      have howed := (hruns before _ after hes).symm.trans hcall
      have hbefore : Responds viewModel login password before := by
        rw [hes] at hresponses
        exact hresponses.append_left
      have hnoerror := untapped_no_error viewModel hbefore hfirst
      left
      simpa [owed, hnoerror] using howed
    · exact .inr htap
  · rintro (hservice | htap) past e future hes
    · rw [hservice]
      exact transform_emits viewModel hvalid hresponses hes
    · have hfirst : .authButtonTapped ∉ past := fun hmem => htap (hes ▸ List.mem_append_left _ hmem)
      have hne : e ≠ .authButtonTapped := fun heq => htap (by simp [hes, heq])
      rcases untapped_edits viewModel hfirst (hresponses past e future hes) hne with
        ⟨text, rfl⟩ | ⟨text, rfl⟩ <;> rfl

end

/-- Two attempts with the same texts; the second one is refused. -/
def twoAttempts : List AuthInput :=
  [.authButtonTapped, .response 0 (.next ()), .response 0 .completed, .authButtonTapped,
    .response 1 (.error ⟨17009⟩)]

theorem two_attempts_run : RunsService ⟨.authService⟩ ivan secret .authService twoAttempts :=
  (runs_injected_service_iff ⟨.authService⟩ (show ValidTaps ivan secret twoAttempts by decide)
    (by decide)).mpr (.inl rfl)

theorem other_service_ignored :
    ¬ ∀ (viewModel : AuthViewModel) (login password : Text) (es : List AuthInput),
      ValidTaps login password es → Responds viewModel login password es →
        RunsService viewModel login password viewModel.authService es := by
  intro h
  have hruns := h ⟨.other "AuthServiceMock"⟩ ivan secret [.authButtonTapped] (by decide) (by decide)
  have hemit := hruns [] .authButtonTapped [] rfl
  exact absurd hemit (by decide)

end Reservation
