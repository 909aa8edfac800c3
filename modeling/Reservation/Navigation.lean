import Reservation.LoginOutcomes
import Mathlib.Data.List.Infix

/-! The navigation stack. Touches reach the controller on top only; an answer of
the backend reaches the login screen wherever this is in the stack, and pushes
the office screen on whatever is on top. -/

namespace Reservation

inductive Screen
  | authorizationViewController
  | officeChoiceController
  | roomsViewController
  | workPlaceViewController
  | chooseDateVC
  deriving DecidableEq

namespace Screen

def chain : List Screen :=
  [authorizationViewController, officeChoiceController, roomsViewController, workPlaceViewController,
    chooseDateVC]

end Screen

inductive AppEvent
  | login (event : LoginEvent)
  | didSelectRow
  -- the details button of a room, and that of a workplace
  | roomDetails
  | workPlaceDetails
  | back
  deriving DecidableEq

structure App where
  viewControllers : List Screen
  login : AuthorizationViewController
  deriving DecidableEq

namespace App

def launch (email password : Text) : App :=
  ⟨[.authorizationViewController], .viewDidLoad email password⟩

def topViewController (app : App) : Option Screen := app.viewControllers.getLast?

def pushViewController (app : App) (screen : Screen) : App :=
  { app with viewControllers := app.viewControllers ++ [screen] }

def popViewController (app : App) : App :=
  if 1 < app.viewControllers.length then
    { app with viewControllers := app.viewControllers.dropLast }
  else
    -- the root stays
    app

def perform (app : App) : LoginEffect → App
  -- `AuthViewRouter` pushes on the stack the login screen belongs to
  | .pushView => app.pushViewController .officeChoiceController
  | _ => app

def loginEvent (app : App) (event : LoginEvent) : App × List LoginEffect :=
  let next := app.login.step event
  (next.2.foldl perform { app with login := next.1 }, next.2)

def touch (app : App) (screen next : Screen) : App × List LoginEffect :=
  if app.topViewController = some screen then (app.pushViewController next, []) else (app, [])

def step (app : App) : AppEvent → App × List LoginEffect
  | .login (.completion call error) => app.loginEvent (.completion call error)
  | .login event =>
    if app.topViewController = some .authorizationViewController then app.loginEvent event else (app, [])
  | .didSelectRow => app.touch .officeChoiceController .roomsViewController
  | .roomDetails => app.touch .roomsViewController .workPlaceViewController
  | .workPlaceDetails => app.touch .workPlaceViewController .chooseDateVC
  | .back => (app.popViewController, [])

end App

def application : Machine App AppEvent LoginEffect := ⟨App.step⟩

def WellStacked (viewControllers : List Screen) : Prop :=
  viewControllers ≠ [] ∧ viewControllers <+: Screen.chain

theorem WellStacked.mem_inits {s : List Screen} (h : WellStacked s) : s ∈ Screen.chain.inits :=
  (List.mem_inits s Screen.chain).mpr h.2

theorem WellStacked.push {s : List Screen} {screen next : Screen} (h : WellStacked s)
    (htop : s.getLast? = some screen)
    (hnext : (screen, next) ∈ Screen.chain.zip Screen.chain.tail) : WellStacked (s ++ [next]) := by
  refine ⟨by simp, ?_⟩
  have hall : ∀ s ∈ Screen.chain.inits, ∀ pair ∈ Screen.chain.zip Screen.chain.tail,
      s.getLast? = some pair.1 → s ++ [pair.2] <+: Screen.chain := by decide
  exact hall s h.mem_inits (screen, next) hnext htop

theorem WellStacked.pop {s : List Screen} (h : WellStacked s) (hlen : 1 < s.length) :
    WellStacked s.dropLast := by
  refine ⟨?_, (List.dropLast_prefix s).trans h.2⟩
  intro he
  have hl := congrArg List.length he
  simp only [List.length_dropLast, List.length_nil] at hl
  omega

theorem top_of_office_pushed {s : List Screen}
    (h : WellStacked (s ++ [.officeChoiceController])) :
    s.getLast? = some .authorizationViewController := by
  obtain ⟨rest, hrest⟩ := h.2
  cases s with
  | nil => simp [Screen.chain] at hrest
  | cons x s =>
    cases s with
    | nil =>
      simp only [Screen.chain, List.cons_append, List.nil_append, List.cons.injEq] at hrest
      simp [hrest.1]
    | cons y s =>
      simp only [Screen.chain, List.cons_append, List.nil_append, List.cons.injEq, List.append_assoc] at hrest
      have hm : Screen.officeChoiceController ∈
          [Screen.roomsViewController, .workPlaceViewController, .chooseDateVC] := by
        rw [← hrest.2.2]
        simp
      simp at hm

/-- A success that the login screen still waits for. -/
def App.isSuccess (app : App) : AppEvent → Bool
  | .login (.completion call none) => decide (call ∈ app.login.pending) && app.login.isListening call
  | _ => false

theorem App.step_of_isSuccess {app : App} {e : AppEvent} (h : app.isSuccess e = true) :
    (app.step e).1.viewControllers = app.viewControllers ++ [.officeChoiceController] := by
  cases e with
  | login event =>
    cases event with
    | completion call error =>
      cases error with
      | none =>
        simp only [App.isSuccess, Bool.and_eq_true, decide_eq_true_eq] at h
        obtain ⟨a, ha, hg⟩ := AuthorizationViewController.isListening_iff.mp h.2
        have hc := AuthorizationViewController.completion_success h.1 ha hg
        simp [App.step, App.loginEvent, AuthorizationViewController.step, hc, App.perform,
          App.pushViewController]
      | some error => simp [App.isSuccess] at h
    | _ => simp [App.isSuccess] at h
  | _ => simp [App.isSuccess] at h

theorem App.loginEvent_stack {app : App} {e : LoginEvent} (h : app.isSuccess (.login e) = false) :
    (app.loginEvent e).1.viewControllers = app.viewControllers := by
  have hstep := app.login.step_cases e
  rw [App.loginEvent]
  generalize app.login.step e = next at hstep ⊢
  cases hstep with
  | success hp hs hg =>
    have hl := AuthorizationViewController.isListening_iff.mpr ⟨_, hs, hg⟩
    simp [App.isSuccess, hp, hl] at h
  | _ => rfl

theorem App.touch_wellStacked {app : App} {screen next : Screen} (h : WellStacked app.viewControllers)
    (hnext : (screen, next) ∈ Screen.chain.zip Screen.chain.tail) :
    WellStacked (app.touch screen next).1.viewControllers := by
  by_cases htop : app.topViewController = some screen
  · simp only [App.touch, htop, if_true]
    exact h.push htop hnext
  · simpa only [App.touch, htop, if_false] using h

theorem App.step_wellStacked {app : App} {e : AppEvent} (h : WellStacked app.viewControllers)
    (he : app.isSuccess e = true → app.topViewController = some .authorizationViewController) :
    WellStacked (app.step e).1.viewControllers := by
  by_cases hs : app.isSuccess e = true
  · rw [App.step_of_isSuccess hs]
    exact h.push (he hs) (by decide)
  · have hs := Bool.eq_false_iff.mpr hs
    cases e with
    | login event =>
      have hstack := App.loginEvent_stack hs
      cases event with
      | completion call error =>
        simp only [App.step, hstack]
        exact h
      | _ =>
        by_cases htop : app.topViewController = some .authorizationViewController
        · simp only [App.step, htop, if_true, hstack]
          exact h
        · simpa only [App.step, htop, if_false] using h
    | didSelectRow => exact App.touch_wellStacked h (by decide)
    | roomDetails => exact App.touch_wellStacked h (by decide)
    | workPlaceDetails => exact App.touch_wellStacked h (by decide)
    | back =>
      by_cases hlen : 1 < app.viewControllers.length
      · simp only [App.step, App.popViewController, hlen, if_true]
        exact h.pop hlen
      · simpa only [App.step, App.popViewController, hlen, if_false] using h

/-- The stack keeps its shape through a whole run exactly when every success the
login screen waits for arrives while the login screen is on top. -/
theorem wellStacked_iff (email password : Text) (es : List AppEvent) :
    (∀ past, past <+: es → WellStacked (application.run (.launch email password) past).viewControllers) ↔
      Machine.AtEach (fun past e =>
        (application.run (.launch email password) past).isSuccess e = true →
          (application.run (.launch email password) past).topViewController =
            some .authorizationViewController) es := by
  constructor
  · intro hall past e future hes hs
    have hnext := hall (past ++ [e]) ⟨future, by simp [hes]⟩
    rw [Machine.run_snoc] at hnext
    change WellStacked ((application.run (.launch email password) past).step e).1.viewControllers at hnext
    rw [App.step_of_isSuccess hs] at hnext
    exact top_of_office_pushed hnext
  · rintro htop past ⟨future, rfl⟩
    refine application.run_invariant_of
      (P := fun _ app => WellStacked app.viewControllers) (fun _ _ h => h.append_left) ?_ ?_ past
      htop.append_left
    · exact ⟨by simp [App.launch], ⟨Screen.chain.tail, rfl⟩⟩
    · intro es e h hi
      exact App.step_wellStacked hi h.last

theorem office_pushed_twice :
    ¬ ∀ (email password : Text) (es : List AppEvent),
      WellStacked (application.run (.launch email password) es).viewControllers := by
  intro h
  have hstack := (h .empty .empty [.login (.editEmail ivan), .login (.editPassword secret), .login .tap,
    .login .tap, .login (.completion 0 none), .login (.completion 1 none)]).2
  exact absurd hstack (by decide)

end Reservation
