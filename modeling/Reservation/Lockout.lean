import Reservation.BookingGuards
import Reservation.LoginAccounts

/-! What there is on the way to the booking form: the login screen at the root,
which obeys the law of its attempts, and a push from the screen on top. -/

namespace Reservation

def BookingEffect.isAlert : BookingEffect → Bool
  | .login effect => effect.isAlert
  | _ => false

def alerts (email password : Text) (past : List BookingEvent) : Nat :=
  (booking.outputs (.launch email password) past).countP BookingEffect.isAlert

def BookingApp.onForm (app : BookingApp) : Prop :=
  app.topViewController.map (·.2.screen) = some .chooseDateVC

/-- The login screen is the root of the stack and nowhere else in it. -/
structure BookingApp.Rooted (app : BookingApp) : Prop where
  root : ∃ (above : List Nat) (vc : ViewController), app.viewControllers = 0 :: above ∧
    app.controllers[0]? = some vc ∧ vc.screen = .authorizationViewController ∧
    ∀ c ∈ above, ∃ (wc : ViewController), app.controllers[c]? = some wc ∧
      wc.screen ≠ .authorizationViewController

namespace BookingApp.Rooted

variable {app : BookingApp}

theorem congr (h : app.Rooted) {app' : BookingApp} (hcontrollers : app'.controllers = app.controllers)
    (hstack : app'.viewControllers = app.viewControllers) : app'.Rooted := by
  obtain ⟨above, vc, hroot⟩ := h.root
  exact ⟨above, vc, by rwa [hcontrollers, hstack]⟩

theorem push (h : app.Rooted) {screen : Screen} (hscreen : screen ≠ .authorizationViewController) :
    (app.pushViewController screen).1.Rooted := by
  obtain ⟨above, vc, hstack, hvc, hauth, habove⟩ := h.root
  have hold {c : Nat} {wc : ViewController} (hwc : app.controllers[c]? = some wc) :
      (app.controllers ++ [({ screen := screen } : ViewController)])[c]? = some wc := by
    rw [List.getElem?_append_left (List.getElem?_eq_some_iff.mp hwc).1]
    exact hwc
  refine ⟨above ++ [app.controllers.length], vc, ?_, hold hvc, hauth, fun c hc => ?_⟩
  · simp [BookingApp.pushViewController, hstack]
  · rcases List.mem_append.mp hc with hmem | hmem
    · obtain ⟨wc, hwc, hne⟩ := habove c hmem
      exact ⟨wc, hold hwc, hne⟩
    · rw [List.mem_singleton.mp hmem]
      exact ⟨{ screen := screen }, by simp [BookingApp.pushViewController], hscreen⟩

theorem set (h : app.Rooted) {c : Nat} {vc vc' : ViewController} (hvc : app.controllers[c]? = some vc)
    (hscreen : vc'.screen = vc.screen) :
    ({ app with controllers := app.controllers.set c vc' } : BookingApp).Rooted := by
  obtain ⟨above, root, hstack, hroot, hauth, habove⟩ := h.root
  obtain ⟨root', hroot', hsame⟩ := ViewController.getElem?_set hvc hscreen hroot
  refine ⟨above, root', hstack, hroot', hsame.trans hauth, fun d hd => ?_⟩
  obtain ⟨wc, hwc, hne⟩ := habove d hd
  obtain ⟨wc', hwc', hsame'⟩ := ViewController.getElem?_set hvc hscreen hwc
  exact ⟨wc', hwc', hsame' ▸ hne⟩

theorem pop (h : app.Rooted) (hlength : 1 < app.viewControllers.length) :
    ({ app with viewControllers := app.viewControllers.dropLast } : BookingApp).Rooted := by
  obtain ⟨above, vc, hstack, hvc, hauth, habove⟩ := h.root
  rw [hstack] at hlength
  have hne : above ≠ [] := by
    rintro rfl
    simp at hlength
  refine ⟨above.dropLast, vc, ?_, hvc, hauth, fun c hc => habove c (List.dropLast_subset above hc)⟩
  rw [hstack, List.dropLast_cons_of_ne_nil hne]

theorem step (h : app.Rooted) {last : Nat → Nat → Option Bool}
    (hguarded : ∀ (c : Nat) (vc : ViewController), app.controllers[c]? = some vc →
      vc.Guarded c (last c)) (e : BookingEvent) : (app.step e).1.Rooted := by
  have hstep := app.step_cases e
  generalize app.step e = next at hstep ⊢
  cases hstep with
  | idle => exact h
  | login _ _ _ => exact h.congr rfl rfl
  | @pushView _ login _ _ _ =>
    have hlogin : ({ app with login := login } : BookingApp).Rooted := h.congr rfl rfl
    exact hlogin.push (by simp)
  | didSelectRow _ _ => exact h.push (by simp)
  | extend _ hvc hextends => exact h.set hvc hextends.screen
  | configure hvc _ => exact h.set hvc rfl
  | @touchDetails c k vc cell callback htop hcell _ hcallback =>
    have hvc := (BookingApp.topViewController_eq_some.mp htop).2
    have hbutton := (hguarded c vc hvc k cell callback hcell hcallback).1
    apply h.push
    rcases (ViewController.didTapButton_screen hbutton).2 with ⟨_, hnext⟩ | ⟨_, hnext⟩ <;> simp [hnext]
  | back hlength => exact h.pop hlength

end BookingApp.Rooted

theorem booking_rooted (email password : Text) (es : List BookingEvent) :
    (booking.run (.launch email password) es).Rooted := by
  induction es using List.reverseRecOn with
  | nil => exact ⟨[], { screen := .authorizationViewController }, rfl, rfl, rfl, by simp⟩
  | append_singleton es e ih =>
    rw [Machine.run_snoc]
    exact ih.step (booking_traced email password es).guarded e

/-- One event reaches the login screen, with all that it puts out, or leaves it
as it is and puts out no alert. -/
theorem BookingApp.step_login (app : BookingApp) (e : BookingEvent) :
    (∃ (event : LoginEvent), (app.step e).1.login = (app.login.step event).1 ∧
      (app.step e).2.countP BookingEffect.isAlert =
        (app.login.step event).2.countP LoginEffect.isAlert) ∨
    ((app.step e).1.login = app.login ∧ (app.step e).2.countP BookingEffect.isAlert = 0) := by
  have hstep := app.step_cases e
  generalize app.step e = next at hstep ⊢
  cases hstep with
  | idle => exact .inr ⟨rfl, rfl⟩
  | @login event login effects _ hstep _ =>
    refine .inl ⟨event, by rw [hstep], ?_⟩
    rw [hstep, List.countP_map]
    rfl
  | @pushView call login _ _ hstep => exact .inl ⟨.completion call none, by rw [hstep]; rfl, by rw [hstep]; rfl⟩
  | didSelectRow _ _ => exact .inr ⟨rfl, rfl⟩
  | extend _ _ _ => exact .inr ⟨rfl, rfl⟩
  | configure _ _ => exact .inr ⟨rfl, rfl⟩
  | touchDetails _ _ _ _ => exact .inr ⟨rfl, rfl⟩
  | back _ => exact .inr ⟨rfl, rfl⟩

/-- The login screen on the way to the form obeys the law of its attempts too. -/
theorem booking_obeys (email password : Text) (es : List BookingEvent) :
    ∃ (l : Login), (booking.run (.launch email password) es).login.Obeys l ∧
      l.attempt = alerts email password es := by
  induction es using List.reverseRecOn with
  | nil => exact ⟨.start email password, viewDidLoad_obeys email password, rfl⟩
  | append_singleton es e ih =>
    obtain ⟨l, hobeys, hattempt⟩ := ih
    have halerts : alerts email password (es ++ [e]) = alerts email password es +
        ((booking.run (.launch email password) es).step e).2.countP BookingEffect.isAlert := by
      rw [alerts, Machine.outputs_snoc, List.countP_append]
      rfl
    rw [Machine.run_snoc]
    rcases (booking.run (.launch email password) es).step_login e with ⟨event, hlogin, hcount⟩ | ⟨hlogin, hcount⟩
    · obtain ⟨hout, hnext⟩ := hobeys.step event
      refine ⟨(l.step event).1, ?_, ?_⟩
      · change ((booking.run (.launch email password) es).step e).1.login.Obeys _
        rw [hlogin]
        exact hnext
      · rw [l.step_attempt, hattempt, halerts, hcount, hout]
    · refine ⟨l, ?_, ?_⟩
      · change ((booking.run (.launch email password) es).step e).1.login.Obeys _
        rw [hlogin]
        exact hobeys
      · rw [hattempt, halerts, hcount, Nat.add_zero]

namespace BookingApp

variable {app : BookingApp} {c : Nat} {vc : ViewController}

theorem top_push (app : BookingApp) (screen : Screen) :
    (app.pushViewController screen).1.topViewController =
      some (app.controllers.length, { screen := screen }) := by
  simp [topViewController, pushViewController]

theorem pushFrom_top (htop : app.topViewController = some (c, vc)) (screen : Screen) :
    app.pushFrom c screen = app.pushViewController screen := by
  have hmem : c ∈ app.viewControllers := List.mem_of_getLast? (topViewController_eq_some.mp htop).1
  rw [pushFrom, if_pos hmem]

theorem top_modify (htop : app.topViewController = some (c, vc)) (f : ViewController → ViewController) :
    (app.modify c f).1.topViewController = some (c, f vc) := by
  obtain ⟨hlast, hvc⟩ := topViewController_eq_some.mp htop
  rw [modify, hvc]
  refine topViewController_eq_some.mpr ⟨hlast, ?_⟩
  rw [List.getElem?_set_self', hvc]
  rfl

theorem top_configure (htop : app.topViewController = some (c, vc)) {k row : Nat} {old new : DetailsCell}
    {isAvailable : Bool} (hcell : vc.cells[k]? = some old)
    (hbind : vc.bindViewModel c row old = some (new, isAvailable)) :
    (app.configure c k row).1.topViewController = some (c, { vc with cells := vc.cells.set k new }) := by
  obtain ⟨hlast, hvc⟩ := topViewController_eq_some.mp htop
  simp only [configure, hvc, hcell, hbind]
  refine topViewController_eq_some.mpr ⟨hlast, ?_⟩
  rw [List.getElem?_set_self', hvc]
  rfl

theorem modify_length (app : BookingApp) (c : Nat) (f : ViewController → ViewController) :
    (app.modify c f).1.controllers.length = app.controllers.length := by
  rw [modify]
  split
  · rfl
  · exact List.length_set

theorem configure_length (app : BookingApp) (c k row : Nat) :
    (app.configure c k row).1.controllers.length = app.controllers.length := by
  rw [configure]
  repeat' split
  all_goals simp

/-- The details button of a new cell, once its row is downloaded and available. -/
theorem top_touchDetails (htop : app.topViewController = some (c, vc)) {new : DetailsCell} {row : Nat}
    {callback : ButtonCallback}
    (hdequeue : vc.dequeue = { vc with cells := vc.cells ++ [({} : DetailsCell)] })
    (hbind : vc.dequeue.bindViewModel c row {} = some (new, true)) (hhidden : new.isHidden = false)
    (hcallback : new.buttonCallback = some callback) (hsource : callback.sourceVC = c) :
    ∃ d, app.controllers[d]? = none ∧ (booking.run app
        [.dequeue c, .configure c vc.cells.length row, .touchDetails vc.cells.length]).topViewController =
      some (d, { screen := callback.screen }) := by
  have hcell : vc.dequeue.cells[vc.cells.length]? = some ({} : DetailsCell) := by
    rw [hdequeue]
    exact List.getElem?_concat_length
  have hconfigured := top_configure (top_modify htop ViewController.dequeue) hcell hbind
  generalize hready : ((app.modify c ViewController.dequeue).1.configure c vc.cells.length row).1 = ready
    at hconfigured
  have hnew : (vc.dequeue.cells.set vc.cells.length new)[vc.cells.length]? = some new := by
    rw [List.getElem?_set_self', hcell]
    rfl
  have hrun : booking.run app
      [.dequeue c, .configure c vc.cells.length row, .touchDetails vc.cells.length] =
        (ready.touchDetails vc.cells.length).1 := by
    rw [← hready]
    rfl
  have hcall : ready.call callback = ready.pushViewController callback.screen := by
    cases callback with
    | pushRooms sourceVC =>
      obtain rfl := hsource
      exact pushFrom_top hconfigured _
    | pushWorkplace sourceVC =>
      obtain rfl := hsource
      exact pushFrom_top hconfigured _
  have hlength : ready.controllers.length = app.controllers.length := by
    rw [← hready, configure_length, modify_length]
  refine ⟨ready.controllers.length, List.getElem?_eq_none_iff.mpr (Nat.le_of_eq hlength.symm), ?_⟩
  rw [hrun, touchDetails, hconfigured]
  simp only [hnew, hhidden, hcallback, hcall, Bool.false_eq_true, if_false]
  exact top_push ready callback.screen

theorem performAll_quiet {effects : List LoginEffect} (h : .pushView ∉ effects) (app : BookingApp) :
    (app.performAll effects).1 = app := by
  induction effects with
  | nil => rfl
  | cons effect effects ih =>
    have htail := ih fun hmem => h (List.mem_cons_of_mem _ hmem)
    cases effect with
    | pushView => exact absurd List.mem_cons_self h
    | _ => exact htail

theorem step_login_top (htop : app.topViewController = some (c, vc))
    (hscreen : vc.screen = .authorizationViewController) (event : LoginEvent) :
    app.step (.login event) = app.loginEvent event := by
  cases event with
  | completion call error => rfl
  | _ => simp [step, htop, hscreen]

/-- On the login screen, as long as nothing is pushed. -/
theorem run_login_quiet (htop : app.topViewController = some (c, vc))
    (hscreen : vc.screen = .authorizationViewController) {es : List LoginEvent}
    (hquiet : .pushView ∉ loginScreen.outputs app.login es) :
    booking.run app (es.map .login) = { app with login := loginScreen.run app.login es } := by
  induction es generalizing app with
  | nil => rfl
  | cons event es ih =>
    rw [Machine.outputs, List.mem_append, not_or] at hquiet
    have hevent : .pushView ∉ (app.login.step event).2 := hquiet.1
    have hstep : (app.step (.login event)).1 = { app with login := (app.login.step event).1 } := by
      rw [step_login_top htop hscreen, loginEvent, performAll_quiet hevent]
    have hrest := @ih { app with login := (app.login.step event).1 } htop hquiet.2
    change booking.run (app.step (.login event)).1 (es.map .login) = _
    rw [hstep, hrest]
    rfl

end BookingApp

def entered : List LoginEvent := [.editEmail ivan, .editPassword ivan, .tap]

theorem Login.run_entered {l : Login} (hattempt : l.attempt < 3)
    (hanswered : ∀ (call : Nat), call ∈ l.answered → call < l.calls.length) :
    loginLaw.outputs l entered = [.signIn l.calls.length ⟨.authService, ivan, ivan⟩] ∧
      (loginLaw.run l entered).Unanswered l.calls.length ∧ (loginLaw.run l entered).Counts l.calls.length := by
  let l' := (l.editEmail ivan).editPassword ivan
  have hvalid : Rx.filter Text.isValid ivan = some ivan := rfl
  have hemail : l'.email = some ivan := by simp [l', editEmail, editPassword, hvalid]
  have hpassword : l'.password = some ivan := by simp [l', editPassword, hvalid]
  have htap := Login.tap_some hemail hpassword hattempt
  have houtputs : loginLaw.outputs l entered = l'.tap.2 := by
    change l'.tap.2 ++ [] = _
    rw [List.append_nil]
  have hrun : loginLaw.run l entered = l'.tap.1 := rfl
  rw [houtputs, hrun, htap]
  exact ⟨rfl, (unanswered_call (l := l') hanswered l'.attempt l.calls.length).mpr (.inr rfl),
    (counts_call (l := l') l.calls.length).mpr (.inr rfl)⟩

namespace BookingApp

variable {app : BookingApp} {c : Nat} {vc : ViewController}

/-- Two valid texts and a tap, then a success. -/
theorem top_of_login (htop : app.topViewController = some (c, vc))
    (hscreen : vc.screen = .authorizationViewController) (hroot : 0 ∈ app.viewControllers) {l : Login}
    (hobeys : app.login.Obeys l) (hattempt : l.attempt < 3) :
    ∃ (es : List LoginEvent) (d : Nat), app.controllers[d]? = none ∧
      (booking.run app (es.map .login)).topViewController = some (d, { screen := .officeChoiceController }) := by
  obtain ⟨houtputs, hunanswered, hcounts⟩ := Login.run_entered hattempt hobeys.answered
  obtain ⟨hsame, hentered⟩ := loginScreen.run_simulates loginLaw (fun _ _ e h => h.step e) hobeys entered
  have hquiet : .pushView ∉ loginScreen.outputs app.login entered := by simp [hsame, houtputs]
  have hrun := run_login_quiet htop hscreen hquiet
  obtain ⟨hpush, _⟩ := hentered.completion l.calls.length none
  rw [Login.completion_success hunanswered hcounts] at hpush
  generalize loginScreen.run app.login entered = login at hrun hpush
  have hanswer : (({ app with login := login } : BookingApp).step (.login (.completion l.calls.length none))).1 =
      (({ app with login := (login.completion l.calls.length none).1 } : BookingApp).pushFrom 0
        .officeChoiceController).1 := by
    change (({ app with login := login } : BookingApp).loginEvent (.completion l.calls.length none)).1 = _
    simp only [loginEvent, AuthorizationViewController.step, hpush]
    rfl
  refine ⟨entered ++ [.completion l.calls.length none], app.controllers.length, List.getElem?_length _, ?_⟩
  rw [List.map_append, Machine.run_append, hrun]
  change (({ app with login := login } : BookingApp).step _).1.topViewController = _
  rw [hanswer, pushFrom, if_pos hroot]
  exact top_push _ _

end BookingApp

end Reservation
