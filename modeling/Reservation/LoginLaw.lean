import Reservation.LoginOutcomes

/-! What the login screen does, told without operators and subscriptions. Every
call belongs to the attempt it was made in, an answer counts if its call belongs
to the current attempt, and a rejection that counts begins the next of three. -/

namespace Reservation

/-- `email` and `password` are the last valid texts the fields have held in this
attempt. `calls` has the attempt of every call, `answered` the calls whose answer
has come. -/
structure Login where
  emailShown : Text
  passwordShown : Text
  email : Option Text
  password : Option Text
  attempt : Nat
  calls : List Nat
  answered : List Nat
  deriving DecidableEq

namespace Login

def start (email password : Text) : Login :=
  ⟨email, password, Rx.filter Text.isValid email, Rx.filter Text.isValid password, 0, [], []⟩

def editEmail (l : Login) (text : Text) : Login :=
  { l with emailShown := text, email := (Rx.filter Text.isValid text).or l.email }

def editPassword (l : Login) (text : Text) : Login :=
  { l with passwordShown := text, password := (Rx.filter Text.isValid text).or l.password }

def tap (l : Login) : Login × List LoginEffect :=
  match l.email, l.password with
  | some email, some password =>
    if l.attempt < 3 then
      ({ l with calls := l.calls ++ [l.attempt] }, [.signIn l.calls.length ⟨.authService, email, password⟩])
    else (l, [])
  | _, _ => (l, [])

def Unanswered (l : Login) (call : Nat) : Prop := call < l.calls.length ∧ call ∉ l.answered

instance (l : Login) (call : Nat) : Decidable (l.Unanswered call) := inferInstanceAs (Decidable (_ ∧ _))

/-- The call was made in the current attempt. -/
def Counts (l : Login) (call : Nat) : Prop := l.calls[call]? = some l.attempt

instance (l : Login) (call : Nat) : Decidable (l.Counts call) := inferInstanceAs (Decidable (_ = _))

def answer (l : Login) (call : Nat) : Login := { l with answered := l.answered ++ [call] }

def nextAttempt (l : Login) : Login :=
  { l with
    attempt := l.attempt + 1
    email := Rx.filter Text.isValid l.emailShown
    password := Rx.filter Text.isValid l.passwordShown }

def completion (l : Login) (call : Nat) (error : Option NSError) : Login × List LoginEffect :=
  if l.Unanswered call then
    if l.Counts call then
      match error with
      | none => (l.answer call, [.pushView])
      | some _ => ((l.answer call).nextAttempt, [.present AuthorizationViewController.alertController])
    else (l.answer call, [])
  else (l, [])

def step (l : Login) : LoginEvent → Login × List LoginEffect
  | .editEmail text => (l.editEmail text, [])
  | .editPassword text => (l.editPassword text, [])
  | .tap => l.tap
  | .completion call error => l.completion call error

end Login

def loginLaw : Machine Login LoginEvent LoginEffect := ⟨Login.step⟩

/-- The subscription of the screen, if three rejections have not ended it. -/
structure AuthResult.Obeys (a : AuthResult) (l : Login) : Prop where
  coherent : a.Coherent
  first : a.logPass.first = l.email
  second : a.logPass.second = l.password
  nodup : a.flatMap.group.Nodup
  group : ∀ (call : Nat), call ∈ a.flatMap.group ↔ l.Counts call ∧ call ∉ l.answered

structure AuthorizationViewController.Obeys (vc : AuthorizationViewController) (l : Login) : Prop where
  emailTextField : vc.emailTextField = l.emailShown
  passwordTextField : vc.passwordTextField = l.passwordShown
  calls : vc.calls = l.calls.length
  numbered : Numbered vc
  pending : ∀ (call : Nat), call ∈ vc.pending ↔ l.Unanswered call
  answered : ∀ (call : Nat), call ∈ l.answered → call < l.calls.length
  made : ∀ (attempt : Nat), attempt ∈ l.calls → attempt ≤ l.attempt ∧ attempt < 3
  alive : ∀ (a : AuthResult), vc.authResult.subscription = some a →
    a.Obeys l ∧ vc.authResult.remaining + l.attempt = 2
  ended : vc.authResult.subscription = none → l.attempt = 3

namespace AuthResult.Obeys

variable {a : AuthResult} {l : Login}

theorem latest (h : a.Obeys l) : a.withLatestFrom.latest = l.email.bind fun email =>
    l.password.map fun password => (email, password) := by
  have hc : a.withLatestFrom.latest = a.logPass.getResult := h.coherent
  rw [hc, Rx.CombineLatest.getResult, h.first, h.second]

theorem loginText (h : a.Obeys l) (text : Text) : (a.loginText text).Obeys (l.editEmail text) := by
  refine ⟨h.coherent.loginText text, ?_, ?_, ?_, ?_⟩
  · rw [AuthResult.loginText_first, h.first]
    rfl
  · rw [AuthResult.loginText_second, h.second]
    rfl
  · rw [AuthResult.loginText_flatMap]
    exact h.nodup
  · rw [AuthResult.loginText_flatMap]
    exact h.group

theorem passwordText (h : a.Obeys l) (text : Text) :
    (a.passwordText text).Obeys (l.editPassword text) := by
  refine ⟨h.coherent.passwordText text, ?_, ?_, ?_, ?_⟩
  · rw [AuthResult.passwordText_first, h.first]
    rfl
  · rw [AuthResult.passwordText_second, h.second]
    rfl
  · rw [AuthResult.passwordText_flatMap]
    exact h.nodup
  · rw [AuthResult.passwordText_flatMap]
    exact h.group

end AuthResult.Obeys

theorem AuthResult.Obeys.retry {l : Login} (hmade : ∀ (attempt : Nat), attempt ∈ l.calls → attempt ≤ l.attempt)
    (call : Nat) :
    (AuthResult.subscribe l.emailShown l.passwordShown).Obeys (l.answer call).nextAttempt := by
  have hold (call : Nat) : ¬ (l.answer call).nextAttempt.Counts call := by
    intro hcounts
    have hmem := hmade _ (List.mem_of_getElem? hcounts)
    simp only [Login.nextAttempt, Login.answer] at hmem
    omega
  refine ⟨AuthResult.subscribe_coherent _ _, AuthResult.subscribe_first _ _,
    AuthResult.subscribe_second _ _, ?_, ?_⟩
  · rw [AuthResult.subscribe_group]
    exact List.nodup_nil
  · intro c
    rw [AuthResult.subscribe_group]
    exact iff_of_false List.not_mem_nil fun h => hold c h.1

namespace Login

variable {l : Login}

theorem tap_none (h : l.email = none ∨ l.password = none) : l.tap = (l, []) := by
  rcases h with h | h
  · simp only [tap, h]
  · cases he : l.email <;> simp only [tap, he, h]

theorem tap_some {email password : Text} (he : l.email = some email) (hp : l.password = some password)
    (hattempt : l.attempt < 3) :
    l.tap = ({ l with calls := l.calls ++ [l.attempt] },
      [.signIn l.calls.length ⟨.authService, email, password⟩]) := by
  simp only [tap, he, hp, hattempt, if_true]

theorem tap_over (hattempt : ¬ l.attempt < 3) : l.tap = (l, []) := by
  rw [tap]
  split
  · rw [if_neg hattempt]
  · rfl

theorem completion_unknown {call : Nat} (h : ¬ l.Unanswered call) (error : Option NSError) :
    l.completion call error = (l, []) := by
  simp [completion, h]

theorem completion_lost {call : Nat} (h : l.Unanswered call) (hlost : ¬ l.Counts call)
    (error : Option NSError) : l.completion call error = (l.answer call, []) := by
  simp [completion, h, hlost]

theorem completion_success {call : Nat} (h : l.Unanswered call) (hcounts : l.Counts call) :
    l.completion call none = (l.answer call, [.pushView]) := by
  simp [completion, h, hcounts]

theorem completion_rejected {call : Nat} (h : l.Unanswered call) (hcounts : l.Counts call)
    (error : NSError) : l.completion call (some error) =
      ((l.answer call).nextAttempt, [.present AuthorizationViewController.alertController]) := by
  simp [completion, h, hcounts]

theorem unanswered_answer (l : Login) (answered call : Nat) :
    (l.answer answered).Unanswered call ↔ l.Unanswered call ∧ call ≠ answered := by
  simp only [Unanswered, answer, List.mem_append, List.mem_singleton, not_or, and_assoc]

/-- A new call is unanswered, and it counts. -/
theorem unanswered_call (hanswered : ∀ (call : Nat), call ∈ l.answered → call < l.calls.length)
    (attempt call : Nat) :
    ({ l with calls := l.calls ++ [attempt] } : Login).Unanswered call ↔
      l.Unanswered call ∨ call = l.calls.length := by
  have hnew : l.calls.length ∉ l.answered := fun hmem => Nat.lt_irrefl _ (hanswered _ hmem)
  simp only [Unanswered, List.length_append, List.length_singleton, Nat.lt_succ_iff_lt_or_eq]
  constructor
  · rintro ⟨hlt | heq, hcall⟩
    · exact .inl ⟨hlt, hcall⟩
    · exact .inr heq
  · rintro (⟨hlt, hcall⟩ | rfl)
    · exact ⟨.inl hlt, hcall⟩
    · exact ⟨.inr rfl, hnew⟩

theorem counts_call (call : Nat) :
    ({ l with calls := l.calls ++ [l.attempt] } : Login).Counts call ↔
      l.Counts call ∨ call = l.calls.length := by
  rcases Nat.lt_trichotomy call l.calls.length with hlt | heq | hgt
  · have hne : call ≠ l.calls.length := Nat.ne_of_lt hlt
    simp [Counts, List.getElem?_append_left hlt, hne]
  · simp [Counts, heq]
  · have hne : call ≠ l.calls.length := Nat.ne_of_gt hgt
    have hold : l.calls.length ≤ call := Nat.le_of_lt hgt
    have hlength : (l.calls ++ [l.attempt]).length ≤ call := by
      rw [List.length_append, List.length_singleton]
      omega
    simp [Counts, List.getElem?_eq_none hlength, List.getElem?_eq_none hold, hne]

end Login

namespace AuthResult.Obeys

variable {a : AuthResult} {l : Login}

theorem call (h : a.Obeys l) (hanswered : ∀ (call : Nat), call ∈ l.answered → call < l.calls.length) :
    ({ a with flatMap := a.flatMap.subscribeInner l.calls.length } : AuthResult).Obeys
      { l with calls := l.calls ++ [l.attempt] } := by
  have hnew : l.calls.length ∉ l.answered := fun hmem => Nat.lt_irrefl _ (hanswered _ hmem)
  have hfresh : l.calls.length ∉ a.flatMap.group := by
    intro hmem
    have hcounts : l.calls[l.calls.length]? = some l.attempt := ((h.group _).mp hmem).1
    simp at hcounts
  refine ⟨h.coherent, h.first, h.second, ?_, fun call => ?_⟩
  · refine List.nodup_append.mpr ⟨h.nodup, by simp, fun c hc d hd heq => ?_⟩
    rw [List.mem_singleton.mp hd] at heq
    exact hfresh (heq ▸ hc)
  · simp only [Rx.FlatMap.subscribeInner, List.mem_append, List.mem_singleton, h.group, Login.counts_call]
    constructor
    · rintro (⟨hcounts, hcall⟩ | rfl)
      · exact ⟨.inl hcounts, hcall⟩
      · exact ⟨.inr rfl, hnew⟩
    · rintro ⟨hcounts | heq, hcall⟩
      · exact .inl ⟨hcounts, hcall⟩
      · exact .inr heq

theorem answer (h : a.Obeys l) (call : Nat) :
    ({ a with flatMap := ⟨a.flatMap.group.erase call⟩ } : AuthResult).Obeys (l.answer call) := by
  refine ⟨h.coherent, h.first, h.second, h.nodup.erase call, fun c => ?_⟩
  rw [h.nodup.mem_erase_iff, h.group]
  simp only [Login.answer, Login.Counts, List.mem_append, List.mem_singleton, not_or]
  constructor
  · rintro ⟨hne, hcounts, hc⟩
    exact ⟨hcounts, hc, hne⟩
  · rintro ⟨hcounts, hc, hne⟩
    exact ⟨hne, hcounts, hc⟩

/-- The answer to a call of an earlier attempt. -/
theorem lose (h : a.Obeys l) {call : Nat} (hcall : call ∉ a.flatMap.group) : a.Obeys (l.answer call) := by
  have hanswer := h.answer call
  rw [List.erase_of_not_mem hcall] at hanswer
  exact hanswer

end AuthResult.Obeys

namespace AuthorizationViewController.Obeys

variable {vc : AuthorizationViewController} {l : Login}

theorem editEmail (h : vc.Obeys l) (text : Text) : (vc.step (.editEmail text)).1.Obeys (l.editEmail text) := by
  refine ⟨rfl, h.passwordTextField, h.calls, h.numbered.step _, h.pending, h.answered, h.made, ?_, ?_⟩
  · intro a' ha'
    obtain ⟨a, ha, rfl⟩ := Option.map_eq_some_iff.mp ha'
    exact ⟨(h.alive a ha).1.loginText text, (h.alive a ha).2⟩
  · intro hnone
    exact h.ended (Option.map_eq_none_iff.mp hnone)

theorem editPassword (h : vc.Obeys l) (text : Text) :
    (vc.step (.editPassword text)).1.Obeys (l.editPassword text) := by
  refine ⟨h.emailTextField, rfl, h.calls, h.numbered.step _, h.pending, h.answered, h.made, ?_, ?_⟩
  · intro a' ha'
    obtain ⟨a, ha, rfl⟩ := Option.map_eq_some_iff.mp ha'
    exact ⟨(h.alive a ha).1.passwordText text, (h.alive a ha).2⟩
  · intro hnone
    exact h.ended (Option.map_eq_none_iff.mp hnone)

theorem call (h : vc.Obeys l) {a : AuthResult} {email password : Text}
    (ha : vc.authResult.subscription = some a) (hl : a.withLatestFrom.latest = some (email, password)) :
    vc.tap.1.Obeys { l with calls := l.calls ++ [l.attempt] } := by
  have hnumbered := h.numbered.step .tap
  obtain ⟨hobeys, hleft⟩ := h.alive a ha
  change Numbered vc.tap.1 at hnumbered
  rw [tap_call ha hl] at hnumbered ⊢
  refine ⟨h.emailTextField, h.passwordTextField, ?_, hnumbered, ?_, ?_, ?_, ?_, ?_⟩
  · simp [h.calls]
  · intro call
    rw [Login.unanswered_call h.answered, ← h.pending, ← h.calls, List.mem_append, List.mem_singleton]
  · intro call hcall
    have hlt := h.answered call hcall
    simp only [List.length_append, List.length_singleton]
    omega
  · intro attempt hattempt
    rcases List.mem_append.mp hattempt with hold | hnew
    · exact h.made attempt hold
    · rw [List.mem_singleton.mp hnew]
      exact ⟨Nat.le_refl _, by omega⟩
  · intro a' ha'
    obtain rfl := Option.some.inj ha'
    rw [h.calls]
    exact ⟨hobeys.call h.answered, hleft⟩
  · intro hnone
    exact absurd hnone (Option.some_ne_none _)

theorem tap (h : vc.Obeys l) : vc.tap.2 = l.tap.2 ∧ vc.tap.1.Obeys l.tap.1 := by
  cases ha : vc.authResult.subscription with
  | none =>
    have hover : ¬ l.attempt < 3 := by
      rw [h.ended ha]
      exact Nat.lt_irrefl 3
    rw [tap_silent (by simp [ha]), Login.tap_over hover]
    exact ⟨rfl, h⟩
  | some a =>
    obtain ⟨hobeys, hleft⟩ := h.alive a ha
    have hlatest := hobeys.latest
    by_cases hnone : l.email = none ∨ l.password = none
    · have hsilent : a.withLatestFrom.latest = none := by
        rw [hlatest]
        rcases hnone with he | hp
        · rw [he, Option.bind_none]
        · cases he : l.email <;> simp [hp]
      rw [tap_silent (by simp [ha, hsilent]), Login.tap_none hnone]
      exact ⟨rfl, h⟩
    · obtain ⟨he, hp⟩ := not_or.mp hnone
      obtain ⟨email, he⟩ := Option.ne_none_iff_exists'.mp he
      obtain ⟨password, hp⟩ := Option.ne_none_iff_exists'.mp hp
      rw [he, hp] at hlatest
      rw [Login.tap_some he hp (by omega)]
      refine ⟨?_, h.call ha hlatest⟩
      rw [tap_call ha hlatest, h.calls]

theorem pending_erase (h : vc.Obeys l) (call c : Nat) :
    c ∈ vc.pending.erase call ↔ (l.answer call).Unanswered c := by
  rw [h.numbered.nodup.mem_erase_iff, h.pending, Login.unanswered_answer, and_comm]

theorem answered_answer (h : vc.Obeys l) {call : Nat} (hp : call ∈ vc.pending) :
    ∀ (c : Nat), c ∈ (l.answer call).answered → c < l.calls.length := by
  intro c hc
  rcases List.mem_append.mp hc with hold | hnew
  · exact h.answered c hold
  · rw [List.mem_singleton.mp hnew]
    exact ((h.pending call).mp hp).1

/-- What an answer leaves of a screen whose subscription does not end with it. -/
theorem answer (h : vc.Obeys l) {vc' : AuthorizationViewController} {call : Nat} (hp : call ∈ vc.pending)
    (hvc : vc' = { vc with authResult := vc'.authResult, pending := vc.pending.erase call })
    (halive : ∀ (a : AuthResult), vc'.authResult.subscription = some a →
      a.Obeys (l.answer call) ∧ vc'.authResult.remaining + l.attempt = 2)
    (hended : vc'.authResult.subscription = none → l.attempt = 3) : vc'.Obeys (l.answer call) := by
  have hnumbered : Numbered vc' := by
    rw [hvc]
    exact h.numbered.erase call rfl rfl
  have hpending : vc'.pending = vc.pending.erase call := by rw [hvc]
  refine ⟨?_, ?_, ?_, hnumbered, ?_, h.answered_answer hp, h.made, halive, hended⟩
  · rw [hvc]
    exact h.emailTextField
  · rw [hvc]
    exact h.passwordTextField
  · rw [hvc]
    exact h.calls
  · rw [hpending]
    exact h.pending_erase call

theorem retry (h : vc.Obeys l) {call : Nat} (hp : call ∈ vc.pending) {a : AuthResult}
    (ha : vc.authResult.subscription = some a) :
    ({ vc with
      authResult := vc.authResult.moveNext (.subscribe vc.emailTextField vc.passwordTextField)
      pending := vc.pending.erase call } : AuthorizationViewController).Obeys
        (l.answer call).nextAttempt := by
  have hleft := (h.alive a ha).2
  refine ⟨h.emailTextField, h.passwordTextField, h.calls, h.numbered.erase call rfl rfl,
    h.pending_erase call, h.answered_answer hp, ?_, ?_, ?_⟩
  · intro attempt hattempt
    have hmade := h.made attempt hattempt
    exact ⟨Nat.le_succ_of_le hmade.1, hmade.2⟩
  · intro a' ha'
    simp only [Rx.Retry.moveNext_subscription] at ha'
    by_cases hz : vc.authResult.remaining = 0
    · simp [hz] at ha'
    · rw [if_neg hz, Option.some.injEq, h.emailTextField, h.passwordTextField] at ha'
      subst ha'
      refine ⟨.retry (fun attempt hattempt => (h.made attempt hattempt).1) call, ?_⟩
      simp only [Rx.Retry.moveNext_remaining, Login.nextAttempt, Login.answer]
      omega
  · intro hnone
    simp only [Rx.Retry.moveNext_subscription] at hnone
    by_cases hz : vc.authResult.remaining = 0
    · simp only [Login.nextAttempt, Login.answer]
      omega
    · simp [hz] at hnone

theorem listening (h : vc.Obeys l) {call : Nat} (hp : call ∈ vc.pending) :
    vc.isListening call = true ↔ l.Counts call := by
  have hunanswered := ((h.pending call).mp hp).2
  rw [isListening_iff]
  constructor
  · rintro ⟨a, ha, hg⟩
    exact (((h.alive a ha).1.group call).mp hg).1
  · intro hcounts
    cases ha : vc.authResult.subscription with
    | none =>
      have hmade := h.made _ (List.mem_of_getElem? hcounts)
      have hended := h.ended ha
      omega
    | some a => exact ⟨a, rfl, ((h.alive a ha).1.group call).mpr ⟨hcounts, hunanswered⟩⟩

theorem completion (h : vc.Obeys l) (call : Nat) (error : Option NSError) :
    (vc.completion call error).2 = (l.completion call error).2 ∧
      (vc.completion call error).1.Obeys (l.completion call error).1 := by
  by_cases hp : call ∈ vc.pending
  · have hunanswered := (h.pending call).mp hp
    have hlistening := h.listening hp
    by_cases hcounts : l.Counts call
    · obtain ⟨a, ha, hg⟩ := isListening_iff.mp (hlistening.mpr hcounts)
      cases error with
      | none =>
        rw [completion_success hp ha hg, Login.completion_success hunanswered hcounts]
        refine ⟨rfl, h.answer hp rfl ?_ fun hnone => absurd hnone (Option.some_ne_none _)⟩
        intro a' ha'
        obtain rfl := Option.some.inj ha'
        exact ⟨(h.alive a ha).1.answer call, (h.alive a ha).2⟩
      | some error =>
        rw [completion_rejected hp ha hg, Login.completion_rejected hunanswered hcounts]
        exact ⟨rfl, h.retry hp ha⟩
    · have hdeaf : vc.isListening call = false := Bool.eq_false_iff.mpr fun hl => hcounts (hlistening.mp hl)
      rw [completion_dropped hp hdeaf, Login.completion_lost hunanswered hcounts]
      refine ⟨rfl, h.answer hp rfl ?_ h.ended⟩
      intro a ha
      have hlost : call ∉ a.flatMap.group := fun hg => hcounts (((h.alive a ha).1.group call).mp hg).1
      exact ⟨(h.alive a ha).1.lose hlost, (h.alive a ha).2⟩
  · have hanswered : ¬ l.Unanswered call := fun hunanswered => hp ((h.pending call).mpr hunanswered)
    rw [completion_unknown hp, Login.completion_unknown hanswered]
    exact ⟨rfl, h⟩

theorem step (h : vc.Obeys l) (e : LoginEvent) :
    (vc.step e).2 = (l.step e).2 ∧ (vc.step e).1.Obeys (l.step e).1 := by
  cases e with
  | editEmail text => exact ⟨rfl, h.editEmail text⟩
  | editPassword text => exact ⟨rfl, h.editPassword text⟩
  | tap => exact h.tap
  | completion call error => exact h.completion call error

end AuthorizationViewController.Obeys

theorem viewDidLoad_obeys (email password : Text) :
    (AuthorizationViewController.viewDidLoad email password).Obeys (.start email password) := by
  have hnumbered := loginScreen_numbered email password []
  refine ⟨rfl, rfl, rfl, hnumbered, ?_, ?_, ?_, ?_, fun hnone => absurd hnone (Option.some_ne_none _)⟩
  · intro call
    simp [AuthorizationViewController.viewDidLoad, Login.Unanswered, Login.start]
  · simp [Login.start]
  · simp [Login.start]
  · intro a ha
    obtain rfl := Option.some.inj ha
    refine ⟨⟨AuthResult.subscribe_coherent _ _, AuthResult.subscribe_first _ _,
      AuthResult.subscribe_second _ _, ?_, ?_⟩, rfl⟩
    · rw [AuthResult.subscribe_group]
      exact List.nodup_nil
    · simp [Login.Counts, Login.start]

theorem loginScreen_simulates (email password : Text) (es : List LoginEvent) :
    loginScreen.outputs (.viewDidLoad email password) es = loginLaw.outputs (.start email password) es ∧
      (loginScreen.run (.viewDidLoad email password) es).Obeys (loginLaw.run (.start email password) es) :=
  loginScreen.run_simulates loginLaw (fun _ _ e h => h.step e) (viewDidLoad_obeys email password) es

/-- What the law says of the screen itself: the texts, the calls that are still
open, and whether the button is dead. -/
structure AuthorizationViewController.LooksAs (vc : AuthorizationViewController) (l : Login) : Prop where
  emailTextField : vc.emailTextField = l.emailShown
  passwordTextField : vc.passwordTextField = l.passwordShown
  pending : ∀ (call : Nat), call ∈ vc.pending ↔ l.Unanswered call
  dead : vc.authResult.subscription = none ↔ l.attempt = 3

theorem AuthorizationViewController.Obeys.looksAs {vc : AuthorizationViewController} {l : Login}
    (h : vc.Obeys l) : vc.LooksAs l := by
  refine ⟨h.emailTextField, h.passwordTextField, h.pending, h.ended, fun hattempt => ?_⟩
  cases hsubscription : vc.authResult.subscription with
  | none => rfl
  | some a =>
    have hremaining := (h.alive a hsubscription).2
    omega

/-- Over any history the login screen calls, pushes and alerts as the law of its
three attempts says, and looks as this law says. -/
theorem loginScreen_obeys (email password : Text) (es : List LoginEvent) :
    loginScreen.outputs (.viewDidLoad email password) es = loginLaw.outputs (.start email password) es ∧
      (loginScreen.run (.viewDidLoad email password) es).LooksAs (loginLaw.run (.start email password) es) := by
  obtain ⟨houtputs, hobeys⟩ := loginScreen_simulates email password es
  exact ⟨houtputs, hobeys.looksAs⟩

end Reservation
