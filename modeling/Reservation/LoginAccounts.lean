import Reservation.LoginLaw

/-! Where the calls of the login screen have gone: each was answered by the next
screen, by an alert, or to no effect, or the backend still owes its answer. -/

namespace Reservation

namespace LoginEffect

def isSignIn : LoginEffect → Bool
  | .signIn _ _ => true
  | _ => false

def isPushView : LoginEffect → Bool
  | .pushView => true
  | _ => false

def isAlert : LoginEffect → Bool
  | .present _ => true
  | _ => false

end LoginEffect

/-- The answer to a pending call that no subscription waits for any more. -/
def AuthorizationViewController.loses (vc : AuthorizationViewController) : LoginEvent → Bool
  | .completion call _ => decide (call ∈ vc.pending) && !vc.isListening call
  | _ => false

def lostAnswers (email password : Text) (es : List LoginEvent) : Nat :=
  loginScreen.countAt (.viewDidLoad email password) AuthorizationViewController.loses es

namespace AuthorizationViewController

theorem step_accounts (vc : AuthorizationViewController) (e : LoginEvent) :
    (vc.step e).2.countP LoginEffect.isSignIn + vc.pending.length =
      (vc.step e).2.countP LoginEffect.isPushView + (vc.step e).2.countP LoginEffect.isAlert +
        (if vc.loses e then 1 else 0) + (vc.step e).1.pending.length := by
  have hstep := vc.step_cases e
  generalize vc.step e = next at hstep ⊢
  have herase {call : Nat} (hp : call ∈ vc.pending) :
      vc.pending.length = (vc.pending.erase call).length + 1 := by
    have hpos := List.length_pos_of_mem hp
    rw [List.length_erase_of_mem hp]
    omega
  cases hstep with
  | editEmail _ => simp [loses]
  | editPassword _ => simp [loses]
  | silent => simp [loses]
  | call _ _ =>
    simp only [LoginEffect.isSignIn, LoginEffect.isPushView, LoginEffect.isAlert, loses, List.countP_singleton,
      List.length_append, List.length_singleton, if_true, Bool.false_eq_true, if_false]
    omega
  | unknown hp => simp [loses, hp]
  | dropped hp hl =>
    have hlength := herase hp
    simp only [loses, hp, hl, decide_true, Bool.not_false, Bool.and_self, if_true, List.countP_nil]
    omega
  | success hp hs hg =>
    have hlength := herase hp
    have hl := isListening_iff.mpr ⟨_, hs, hg⟩
    simp only [LoginEffect.isSignIn, LoginEffect.isPushView, LoginEffect.isAlert, loses, hl,
      List.countP_singleton, Bool.not_true, Bool.and_false, if_true, Bool.false_eq_true, if_false]
    omega
  | rejected hp hs hg =>
    have hlength := herase hp
    have hl := isListening_iff.mpr ⟨_, hs, hg⟩
    simp only [LoginEffect.isSignIn, LoginEffect.isPushView, LoginEffect.isAlert, loses, hl,
      List.countP_singleton, Bool.not_true, Bool.and_false, if_true, Bool.false_eq_true, if_false]
    omega

theorem step_ended {vc : AuthorizationViewController} (h : vc.authResult.subscription = none)
    (e : LoginEvent) : (vc.step e).1.authResult.subscription = none ∧ (vc.step e).2 = [] := by
  have hstep := vc.step_cases e
  generalize vc.step e = next at hstep ⊢
  cases hstep with
  | editEmail _ => simp [h]
  | editPassword _ => simp [h]
  | silent => exact ⟨h, rfl⟩
  | call hs _ => simp [h] at hs
  | unknown _ => exact ⟨h, rfl⟩
  | dropped _ _ => exact ⟨h, rfl⟩
  | success _ hs _ => simp [h] at hs
  | rejected _ hs _ => simp [h] at hs

theorem outputs_ended {vc : AuthorizationViewController} (h : vc.authResult.subscription = none)
    (es : List LoginEvent) : loginScreen.outputs vc es = [] := by
  induction es generalizing vc with
  | nil => rfl
  | cons e es ih =>
    obtain ⟨hnext, hout⟩ := step_ended h e
    change (vc.step e).2 ++ loginScreen.outputs (vc.step e).1 es = []
    rw [hout, ih hnext, List.nil_append]

end AuthorizationViewController

theorem Login.step_attempt (l : Login) (e : LoginEvent) :
    (l.step e).1.attempt = l.attempt + (l.step e).2.countP LoginEffect.isAlert := by
  cases e with
  | editEmail text => rfl
  | editPassword text => rfl
  | tap =>
    change l.tap.1.attempt = l.attempt + l.tap.2.countP LoginEffect.isAlert
    rw [tap]
    split
    · split <;> simp [LoginEffect.isAlert]
    · simp
  | completion call error =>
    change (l.completion call error).1.attempt =
      l.attempt + (l.completion call error).2.countP LoginEffect.isAlert
    by_cases hunanswered : l.Unanswered call
    · by_cases hcounts : l.Counts call
      · cases error with
        | none => simp [completion_success hunanswered hcounts, answer, LoginEffect.isAlert]
        | some error =>
          simp [completion_rejected hunanswered hcounts, answer, nextAttempt, LoginEffect.isAlert]
      · simp [completion_lost hunanswered hcounts, answer]
    · simp [completion_unknown hunanswered]

/-- The alerts presented so far are the attempts used up. -/
theorem alerts_eq_attempt (email password : Text) (es : List LoginEvent) :
    (loginScreen.outputs (.viewDidLoad email password) es).countP LoginEffect.isAlert =
      (loginLaw.run (.start email password) es).attempt := by
  have hcounts := loginLaw.run_counts Login.step_attempt (.start email password) es
  have hstart : (Login.start email password).attempt = 0 := rfl
  rw [(loginScreen_simulates email password es).1, hcounts, hstart, Nat.zero_add]

theorem AuthorizationViewController.Obeys.attempt_lt_iff {vc : AuthorizationViewController} {l : Login}
    (h : vc.Obeys l) : l.attempt < 3 ↔ vc.authResult.subscription.isSome := by
  cases ha : vc.authResult.subscription with
  | none =>
    have hended := h.ended ha
    simp [hended]
  | some a =>
    have hleft := (h.alive a ha).2
    simp only [Option.isSome_some, iff_true]
    omega

theorem AuthorizationViewController.Obeys.attempt_le {vc : AuthorizationViewController} {l : Login}
    (h : vc.Obeys l) : l.attempt ≤ 3 := by
  cases ha : vc.authResult.subscription with
  | none => exact Nat.le_of_eq (h.ended ha)
  | some a =>
    have hleft := (h.alive a ha).2
    omega

structure Accounted (email password : Text) (es : List LoginEvent) : Prop where
  balance : (loginScreen.outputs (.viewDidLoad email password) es).countP LoginEffect.isSignIn =
    (loginScreen.outputs (.viewDidLoad email password) es).countP LoginEffect.isPushView +
      (loginScreen.outputs (.viewDidLoad email password) es).countP LoginEffect.isAlert +
      lostAnswers email password es + (loginScreen.run (.viewDidLoad email password) es).pending.length
  alerts : (loginScreen.outputs (.viewDidLoad email password) es).countP LoginEffect.isAlert ≤ 3
  silent : (loginScreen.outputs (.viewDidLoad email password) es).countP LoginEffect.isAlert = 3 →
    ∀ (more : List LoginEvent),
      loginScreen.outputs (.viewDidLoad email password) (es ++ more) =
        loginScreen.outputs (.viewDidLoad email password) es

/-- Over any history every call is accounted for, there are at most three alerts,
and nothing is put out after the third. -/
theorem calls_accounted (email password : Text) (es : List LoginEvent) : Accounted email password es := by
  have hobeys := (loginScreen_simulates email password es).2
  have halerts := alerts_eq_attempt email password es
  refine ⟨?_, halerts ▸ hobeys.attempt_le, fun hthree more => ?_⟩
  · induction es using List.reverseRecOn with
    | nil => rfl
    | append_singleton es e ih =>
      have hbalance := ih (loginScreen_simulates email password es).2 (alerts_eq_attempt email password es)
      have hstep := (loginScreen.run (.viewDidLoad email password) es).step_accounts e
      have hlost : lostAnswers email password (es ++ [e]) = lostAnswers email password es +
          if (loginScreen.run (.viewDidLoad email password) es).loses e then 1 else 0 :=
        loginScreen.countAt_snoc _ _ es e
      have hemit : loginScreen.emit (.viewDidLoad email password) es e =
        ((loginScreen.run (.viewDidLoad email password) es).step e).2 := rfl
      have hrun : (loginScreen.step (loginScreen.run (.viewDidLoad email password) es) e).1 =
        ((loginScreen.run (.viewDidLoad email password) es).step e).1 := rfl
      simp only [Machine.outputs_snoc, List.countP_append, Machine.run_snoc, hlost, hemit, hrun]
      omega
  · have hended : (loginScreen.run (.viewDidLoad email password) es).authResult.subscription = none := by
      have hlt := hobeys.attempt_lt_iff
      rw [← halerts, hthree] at hlt
      simpa using hlt
    rw [Machine.outputs_append, AuthorizationViewController.outputs_ended hended, List.append_nil]

end Reservation
