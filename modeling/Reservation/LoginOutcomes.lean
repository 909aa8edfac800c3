import Reservation.LoginAttempts

/-! The answers of the backend. A rejection disposes the subscription it reaches
together with every other call this subscription waits for, and the answers to
those calls are lost. -/

namespace Reservation

/-- What an answer is meant to do: a success pushes the next screen, a rejection
presents the alert. -/
def AuthorizationViewController.TakesEffect (vc : AuthorizationViewController) : LoginEvent → Prop
  | .completion call none => call ∈ vc.pending → (vc.step (.completion call none)).2 = [.pushView]
  | .completion call (some error) => call ∈ vc.pending →
      (vc.step (.completion call (some error))).2 = [.present alertController]
  | _ => True

instance (vc : AuthorizationViewController) : (e : LoginEvent) → Decidable (vc.TakesEffect e)
  | .editEmail _ => isTrue trivial
  | .editPassword _ => isTrue trivial
  | .tap => isTrue trivial
  | .completion _ none => inferInstanceAs (Decidable (_ → _))
  | .completion _ (some _) => inferInstanceAs (Decidable (_ → _))

theorem takesEffect_completion_iff {vc : AuthorizationViewController} {call : Nat}
    {error : Option NSError} (hp : call ∈ vc.pending) :
    vc.TakesEffect (.completion call error) ↔ vc.isListening call = true := by
  constructor
  · intro h
    by_contra hl
    have hd : vc.completion call error = ({ vc with pending := vc.pending.erase call }, []) :=
      AuthorizationViewController.completion_dropped hp (Bool.eq_false_iff.mpr hl)
    cases error with
    | none => simpa [AuthorizationViewController.step, hd] using h hp
    | some error => simpa [AuthorizationViewController.step, hd] using h hp
  · intro hl
    obtain ⟨a, ha, hg⟩ := AuthorizationViewController.isListening_iff.mp hl
    cases error with
    | none =>
      intro _
      simp [AuthorizationViewController.step, AuthorizationViewController.completion_success hp ha hg]
    | some error =>
      intro _
      simp [AuthorizationViewController.step, AuthorizationViewController.completion_rejected hp ha hg]

def Overtaken (email password : Text) (past : List LoginEvent) (call : Nat) : Prop :=
  ∃ before other error between, past = before ++ .completion other (some error) :: between ∧
    other ≠ call ∧ other ∈ (loginScreen.run (.viewDidLoad email password) before).pending ∧
    call ∈ (loginScreen.run (.viewDidLoad email password) before).pending

theorem Overtaken.append_right {email password : Text} {past : List LoginEvent} {call : Nat}
    (h : Overtaken email password past call) (more : List LoginEvent) :
    Overtaken email password (past ++ more) call := by
  obtain ⟨before, other, error, between, rfl, hrest⟩ := h
  exact ⟨before, other, error, between ++ more, by simp, hrest⟩

structure Numbered (vc : AuthorizationViewController) : Prop where
  nodup : vc.pending.Nodup
  lt : ∀ call ∈ vc.pending, call < vc.calls

theorem Numbered.erase {vc vc' : AuthorizationViewController} (h : Numbered vc) (call : Nat)
    (hp : vc'.pending = vc.pending.erase call) (hc : vc'.calls = vc.calls) : Numbered vc' := by
  constructor
  · rw [hp]
    exact h.nodup.erase call
  · intro c hm
    rw [hp] at hm
    rw [hc]
    exact h.lt c (List.mem_of_mem_erase hm)

theorem Numbered.step {vc : AuthorizationViewController} (h : Numbered vc) (e : LoginEvent) :
    Numbered (vc.step e).1 := by
  have hstep := vc.step_cases e
  generalize vc.step e = next at hstep ⊢
  cases hstep with
  | editEmail t => exact ⟨h.nodup, h.lt⟩
  | editPassword t => exact ⟨h.nodup, h.lt⟩
  | silent => exact h
  | call _ _ =>
    have hnew : vc.calls ∉ vc.pending := fun hm => Nat.lt_irrefl _ (h.lt _ hm)
    constructor
    · rw [List.nodup_append]
      refine ⟨h.nodup, by simp, ?_⟩
      intro c hc d hd
      rw [List.mem_singleton.mp hd]
      exact fun he => hnew (he ▸ hc)
    · intro c hm
      change c < vc.calls + 1
      rcases List.mem_append.mp hm with hc | hc
      · have hlt := h.lt c hc
        omega
      · have heq := List.mem_singleton.mp hc
        omega
  | unknown _ => exact h
  | dropped _ _ => exact h.erase _ rfl rfl
  | success _ _ _ => exact h.erase _ rfl rfl
  | rejected _ _ _ => exact h.erase _ rfl rfl

theorem loginScreen_numbered (email password : Text) (es : List LoginEvent) :
    Numbered (loginScreen.run (.viewDidLoad email password) es) :=
  loginScreen.run_invariant (s := .viewDidLoad email password) (P := fun _ => Numbered)
    ⟨List.nodup_nil, by simp [AuthorizationViewController.viewDidLoad]⟩ (fun _ e h => h.step e) es

theorem listening_or_overtaken (email password : Text) {es : List LoginEvent} {call : Nat}
    (hp : call ∈ (loginScreen.run (.viewDidLoad email password) es).pending) :
    (loginScreen.run (.viewDidLoad email password) es).isListening call = true ∨
      Overtaken email password es call := by
  induction es using List.reverseRecOn with
  | nil => simp [AuthorizationViewController.viewDidLoad] at hp
  | append_singleton es e ih =>
    have hn := loginScreen_numbered email password es
    have hover {error : NSError} {other : Nat} (he : e = .completion other (some error))
        (hother : other ≠ call) (ho : other ∈ (loginScreen.run (.viewDidLoad email password) es).pending)
        (hc : call ∈ (loginScreen.run (.viewDidLoad email password) es).pending) :
        Overtaken email password (es ++ [e]) call :=
      ⟨es, other, error, [], by rw [he], hother, ho, hc⟩
    rw [Machine.run_snoc] at hp ⊢
    generalize loginScreen.run (.viewDidLoad email password) es = vc at hp ih hn hover ⊢
    have hold {vc' : AuthorizationViewController} (hc : call ∈ vc.pending)
        (hl : ∀ a, vc.authResult.subscription = some a → call ∈ a.flatMap.group →
          ∃ a', vc'.authResult.subscription = some a' ∧ call ∈ a'.flatMap.group) :
        vc'.isListening call = true ∨ Overtaken email password (es ++ [e]) call := by
      rcases ih hc with h | h
      · obtain ⟨a, ha, hg⟩ := AuthorizationViewController.isListening_iff.mp h
        exact .inl (AuthorizationViewController.isListening_iff.mpr (hl a ha hg))
      · exact .inr (h.append_right [e])
    have hstep := vc.step_cases e
    change call ∈ (vc.step e).1.pending at hp
    change (vc.step e).1.isListening call = true ∨ _
    generalize vc.step e = next at hp hstep ⊢
    cases hstep with
    | editEmail t => exact hold hp fun a ha hg => ⟨a.loginText t, by simp [ha], by simpa using hg⟩
    | editPassword t => exact hold hp fun a ha hg => ⟨a.passwordText t, by simp [ha], by simpa using hg⟩
    | silent => exact hold hp fun a ha hg => ⟨a, ha, hg⟩
    | call hs _ =>
      rcases List.mem_append.mp hp with hc | hc
      · apply hold hc
        intro a' ha' hg
        obtain rfl := Option.some.inj (hs.symm.trans ha')
        exact ⟨_, rfl, List.mem_append_left _ hg⟩
      · obtain rfl := List.mem_singleton.mp hc
        apply Or.inl
        apply AuthorizationViewController.isListening_iff.mpr
        exact ⟨_, rfl, List.mem_append_right _ (List.mem_singleton_self _)⟩
    | unknown _ => exact hold hp fun a ha hg => ⟨a, ha, hg⟩
    | dropped _ _ => exact hold (List.mem_of_mem_erase hp) fun a ha hg => ⟨a, ha, hg⟩
    | success _ hs _ =>
      obtain ⟨hne, hc⟩ := hn.nodup.mem_erase_iff.mp hp
      apply hold hc
      intro a' ha' hg
      obtain rfl := Option.some.inj (hs.symm.trans ha')
      exact ⟨_, rfl, (List.mem_erase_of_ne hne).mpr hg⟩
    | rejected ho _ _ =>
      obtain ⟨hne, hc⟩ := hn.nodup.mem_erase_iff.mp hp
      exact .inr (hover rfl (Ne.symm hne) ho hc)

theorem deaf_step {vc : AuthorizationViewController} {call : Nat} (hlt : call < vc.calls)
    (hd : vc.isListening call = false) (e : LoginEvent) :
    call < (vc.step e).1.calls ∧ (vc.step e).1.isListening call = false := by
  have hstep := vc.step_cases e
  generalize vc.step e = next at hstep ⊢
  have hdeaf {vc' : AuthorizationViewController}
      (hl : ∀ a', vc'.authResult.subscription = some a' → call ∈ a'.flatMap.group →
        ∃ a, vc.authResult.subscription = some a ∧ call ∈ a.flatMap.group) :
      vc'.isListening call = false := by
    apply Bool.eq_false_iff.mpr
    intro h
    obtain ⟨a', ha', hg⟩ := AuthorizationViewController.isListening_iff.mp h
    rw [AuthorizationViewController.isListening_iff.mpr (hl a' ha' hg)] at hd
    simp at hd
  cases hstep with
  | editEmail t =>
    refine ⟨hlt, hdeaf fun a' ha' hg => ?_⟩
    obtain ⟨a, ha, rfl⟩ := Option.map_eq_some_iff.mp ha'
    exact ⟨a, ha, by simpa using hg⟩
  | editPassword t =>
    refine ⟨hlt, hdeaf fun a' ha' hg => ?_⟩
    obtain ⟨a, ha, rfl⟩ := Option.map_eq_some_iff.mp ha'
    exact ⟨a, ha, by simpa using hg⟩
  | silent => exact ⟨hlt, hd⟩
  | call hs _ =>
    refine ⟨Nat.lt_succ_of_lt hlt, hdeaf ?_⟩
    rintro a' ⟨⟩ hg
    rcases List.mem_append.mp hg with h | h
    · exact ⟨_, hs, h⟩
    · exact absurd (List.mem_singleton.mp h) (Nat.ne_of_lt hlt)
  | unknown _ => exact ⟨hlt, hd⟩
  | dropped _ _ => exact ⟨hlt, hd⟩
  | success _ hs _ =>
    refine ⟨hlt, hdeaf ?_⟩
    rintro a' ⟨⟩ hg
    exact ⟨_, hs, List.mem_of_mem_erase hg⟩
  | rejected _ _ _ => exact ⟨hlt, AuthorizationViewController.isListening_moveNext rfl call⟩

theorem deaf_run {vc : AuthorizationViewController} {call : Nat} (hlt : call < vc.calls)
    (hd : vc.isListening call = false) (es : List LoginEvent) :
    (loginScreen.run vc es).isListening call = false :=
  (loginScreen.run_invariant (P := fun _ vc => call < vc.calls ∧ vc.isListening call = false)
    ⟨hlt, hd⟩ (fun _ e h => deaf_step h.1 h.2 e) es).2

theorem overtaken_deaf {vc : AuthorizationViewController} {other call : Nat} {error : NSError}
    (hn : Numbered vc) (ho : other ∈ vc.pending) (hc : call ∈ vc.pending)
    (he : vc.TakesEffect (.completion other (some error))) (es : List LoginEvent) :
    (loginScreen.run (vc.step (.completion other (some error))).1 es).isListening call = false := by
  obtain ⟨a, ha, hg⟩ := AuthorizationViewController.isListening_iff.mp
    ((takesEffect_completion_iff ho).mp he)
  have hstep := AuthorizationViewController.completion_rejected ho ha hg error
  change (loginScreen.run (vc.completion other (some error)).1 es).isListening call = false
  rw [hstep]
  apply deaf_run
  · exact hn.lt call hc
  · exact AuthorizationViewController.isListening_moveNext rfl call

/-- In any run, with any number of rejections, every answer takes effect exactly
when no answered call was pending while the rejection of another one arrived. -/
theorem answers_take_effect_iff (email password : Text) (es : List LoginEvent) :
    Machine.AtEach (fun past e =>
        (loginScreen.run (.viewDidLoad email password) past).TakesEffect e) es ↔
      Machine.AtEach (fun past e => ∀ call error, e = .completion call error →
        call ∈ (loginScreen.run (.viewDidLoad email password) past).pending →
          ¬ Overtaken email password past call) es := by
  constructor
  · rintro hall past _ future hes call error rfl hp ⟨before, other, err, between, hpast, hne, ho, hc⟩
    have heffect : (loginScreen.run (.viewDidLoad email password) before).TakesEffect
        (.completion other (some err)) :=
      hall before _ (between ++ .completion call error :: future) (by simp [hes, hpast])
    have hdeaf := overtaken_deaf (loginScreen_numbered email password before) ho hc heffect between
    have hrun : loginScreen.run (.viewDidLoad email password) past =
        loginScreen.run ((loginScreen.run (.viewDidLoad email password) before).step
          (.completion other (some err))).1 between := by
      rw [hpast, Machine.run_append]
      rfl
    have hl := (takesEffect_completion_iff hp).mp (hall past _ future hes)
    rw [hrun, hdeaf] at hl
    exact Bool.false_ne_true hl
  · intro hnone past e future hes
    cases e with
    | editEmail t => trivial
    | editPassword t => trivial
    | tap => trivial
    | completion call error =>
      by_cases hp : call ∈ (loginScreen.run (.viewDidLoad email password) past).pending
      · have hover := hnone past _ future hes call error rfl hp
        exact (takesEffect_completion_iff hp).mpr
          ((listening_or_overtaken email password hp).resolve_right hover)
      · cases error with
        | none => exact fun h => absurd h hp
        | some error => exact fun h => absurd h hp

theorem success_after_rejection_lost :
    ¬ ∀ (email password : Text) (es : List LoginEvent), rejections es < 3 →
      Machine.AtEach (fun past e =>
        (loginScreen.run (.viewDidLoad email password) past).TakesEffect e) es := by
  intro h
  exact absurd (h .empty .empty [.editEmail ivan, .editPassword secret, .tap, .tap,
    .completion 0 (some ⟨17009⟩), .completion 1 none] (by decide)) (by decide)

end Reservation
