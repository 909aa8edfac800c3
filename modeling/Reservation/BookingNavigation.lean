import Reservation.BookingGuards

/-! With the cells left out, the way to the booking form is a run of the
navigation stack. -/

namespace Reservation

def BookingApp.screens (app : BookingApp) : List (Option Screen) :=
  app.viewControllers.map fun c => app.controllers[c]?.map ViewController.screen

structure Represents (app : BookingApp) (a : App) : Prop where
  login : a.login = app.login
  screens : app.screens = a.viewControllers.map some
  root : app.viewControllers.head? = some 0

theorem App.foldl_perform {effects : List LoginEffect} (h : .pushView ∉ effects) (a : App) :
    effects.foldl App.perform a = a := by
  induction effects with
  | nil => rfl
  | cons effect effects ih =>
    have hne : effect ≠ .pushView := fun heq => h (heq ▸ List.mem_cons_self)
    have heffect : a.perform effect = a := by
      cases effect with
      | pushView => exact absurd rfl hne
      | _ => rfl
    rw [List.foldl_cons, heffect]
    exact ih fun hmem => h (List.mem_cons_of_mem _ hmem)

namespace Represents

variable {app : BookingApp} {a : App}

theorem top (h : Represents app a) {c : Nat} {vc : ViewController}
    (htop : app.topViewController = some (c, vc)) : a.topViewController = some vc.screen := by
  obtain ⟨hlast, hvc⟩ := BookingApp.topViewController_eq_some.mp htop
  have hscreens := congrArg List.getLast? h.screens
  rw [BookingApp.screens, List.getLast?_map, List.getLast?_map, hlast, Option.map_some, hvc] at hscreens
  rw [App.topViewController]
  cases hstack : a.viewControllers.getLast? with
  | none => simp [hstack] at hscreens
  | some screen =>
    rw [hstack] at hscreens
    simpa using hscreens.symm

theorem lt_length (h : Represents app a) {c : Nat} (hc : c ∈ app.viewControllers) :
    c < app.controllers.length := by
  by_contra hge
  have hmem : none ∈ app.screens :=
    List.mem_map.mpr ⟨c, hc, by rw [List.getElem?_eq_none (by omega)]; rfl⟩
  rw [h.screens] at hmem
  simp at hmem

theorem push (h : Represents app a) (screen : Screen) :
    Represents (app.pushViewController screen).1 (a.pushViewController screen) := by
  refine ⟨h.login, ?_, ?_⟩
  · have hold : app.viewControllers.map (fun c => (app.controllers ++
        [({ screen := screen } : ViewController)])[c]?.map ViewController.screen) = app.screens := by
      refine List.map_congr_left fun c hc => ?_
      rw [List.getElem?_append_left (h.lt_length hc)]
    simp only [BookingApp.screens, BookingApp.pushViewController, List.map_append, hold,
      App.pushViewController]
    rw [← h.screens]
    simp [BookingApp.screens]
  · simp [BookingApp.pushViewController, List.head?_append, h.root]

theorem set (h : Represents app a) {c : Nat} {vc vc' : ViewController}
    (hvc : app.controllers[c]? = some vc) (hscreen : vc'.screen = vc.screen) :
    Represents { app with controllers := app.controllers.set c vc' } a := by
  refine ⟨h.login, ?_, h.root⟩
  rw [← h.screens]
  refine List.map_congr_left fun d _ => ?_
  by_cases hd : d = c
  · subst hd
    rw [List.getElem?_set_self', hvc]
    simp [hscreen]
  · rw [List.getElem?_set_ne (Ne.symm hd)]

theorem pop (h : Represents app a) (hlength : 1 < app.viewControllers.length) :
    Represents { app with viewControllers := app.viewControllers.dropLast } a.popViewController := by
  have hsame := congrArg List.length h.screens
  rw [BookingApp.screens, List.length_map, List.length_map] at hsame
  have hscreens := congrArg List.dropLast h.screens
  rw [BookingApp.screens, ← List.map_dropLast, ← List.map_dropLast] at hscreens
  rw [App.popViewController, if_pos (by omega)]
  refine ⟨h.login, hscreens, ?_⟩
  rw [List.head?_dropLast, if_pos hlength]
  exact h.root

theorem loginEvent (h : Represents app a) {event : LoginEvent} {login : AuthorizationViewController}
    {effects : List LoginEffect} (hreceives : app.Receives event)
    (hstep : app.login.step event = (login, effects)) :
    application.run a [.login event] = effects.foldl App.perform { a with login := login } := by
  have hevent : (a.loginEvent event).1 = effects.foldl App.perform { a with login := login } := by
    rw [App.loginEvent, h.login, hstep]
  rw [← hevent]
  cases event with
  | completion call error => rfl
  | _ =>
    obtain ⟨⟨c, vc⟩, htop, hscreen⟩ := Option.map_eq_some_iff.mp hreceives
    have hauth : a.topViewController = some .authorizationViewController := by rw [h.top htop, hscreen]
    simp [application, Machine.run, App.step, hauth]

theorem step (h : Represents app a) {last : Nat → Nat → Option Bool}
    (hguarded : ∀ (c : Nat) (vc : ViewController), app.controllers[c]? = some vc →
      vc.Guarded c (last c)) (e : BookingEvent) :
    ∃ es, Represents (app.step e).1 (application.run a es) := by
  have hstep := app.step_cases e
  generalize app.step e = next at hstep ⊢
  cases hstep with
  | idle => exact ⟨[], h⟩
  | @login event login effects hreceives hstep hroot =>
    have hmem : 0 ∈ app.viewControllers := List.mem_of_head? h.root
    have hnone : LoginEffect.pushView ∉ effects := fun hpush => hroot hpush hmem
    refine ⟨[.login event], ?_⟩
    rw [h.loginEvent hreceives hstep, App.foldl_perform hnone]
    exact ⟨rfl, h.screens, h.root⟩
  | @pushView call login hp hl hstep =>
    refine ⟨[.login (.completion call none)], ?_⟩
    have hlogin : Represents { app with login := login } { a with login := login } :=
      ⟨rfl, h.screens, h.root⟩
    have hreceives : app.Receives (.completion call none) := trivial
    rw [h.loginEvent hreceives hstep]
    exact hlogin.push .officeChoiceController
  | @didSelectRow c vc htop hscreen =>
    refine ⟨[.didSelectRow], ?_⟩
    have hrun : application.run a [.didSelectRow] = a.pushViewController .roomsViewController := by
      have htouch := h.top htop
      rw [hscreen] at htouch
      simp [application, Machine.run, App.step, App.touch, htouch]
    rw [hrun]
    exact h.push _
  | extend _ hvc hextends => exact ⟨[], h.set hvc hextends.screen⟩
  | configure hvc _ => exact ⟨[], h.set hvc rfl⟩
  | @touchDetails c k vc cell callback htop hcell hvisible hcallback =>
    have hvc := (BookingApp.topViewController_eq_some.mp htop).2
    have hbutton := (hguarded c vc hvc k cell callback hcell hcallback).1
    have htouch := h.top htop
    rcases (ViewController.didTapButton_screen hbutton).2 with ⟨hscreen, hnext⟩ | ⟨hscreen, hnext⟩
    · refine ⟨[.roomDetails], ?_⟩
      have hrun : application.run a [.roomDetails] = a.pushViewController callback.screen := by
        rw [hscreen] at htouch
        simp [application, Machine.run, App.step, App.touch, htouch, hnext]
      rw [hrun]
      exact h.push _
    · refine ⟨[.workPlaceDetails], ?_⟩
      have hrun : application.run a [.workPlaceDetails] = a.pushViewController callback.screen := by
        rw [hscreen] at htouch
        simp [application, Machine.run, App.step, App.touch, htouch, hnext]
      rw [hrun]
      exact h.push _
  | back hlength => exact ⟨[.back], h.pop hlength⟩

end Represents

/-- The stack of screens and the login screen after any run are those of a run
of `App`. -/
theorem booking_refines_application (email password : Text) (es : List BookingEvent) :
    ∃ es', Represents (booking.run (.launch email password) es)
      (application.run (.launch email password) es') := by
  induction es using List.reverseRecOn with
  | nil => exact ⟨[], rfl, rfl, rfl⟩
  | append_singleton es e ih =>
    obtain ⟨es', h⟩ := ih
    obtain ⟨more, hmore⟩ := h.step (booking_traced email password es).guarded e
    refine ⟨es' ++ more, ?_⟩
    rw [Machine.run_snoc, Machine.run_append]
    exact hmore

end Reservation
