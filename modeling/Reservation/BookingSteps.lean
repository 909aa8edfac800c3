import Reservation.Booking

/-! Everything one event can do on the way to the booking form. -/

namespace Reservation

def ButtonCallback.screen : ButtonCallback → Screen
  | pushRooms _ => .workPlaceViewController
  | pushWorkplace _ => .chooseDateVC

/-- The closure the table of this controller gives to its cells. -/
def ViewController.didTapButton (vc : ViewController) (controller : Nat) : Option ButtonCallback :=
  match vc.screen with
  | .roomsViewController => some (.pushRooms controller)
  | .workPlaceViewController => some (.pushWorkplace controller)
  | _ => none

theorem ViewController.bindViewModel_eq {vc : ViewController} {controller row : Nat}
    {old new : DetailsCell} {isAvailable : Bool}
    (h : vc.bindViewModel controller row old = some (new, isAvailable)) :
    new.isHidden = !isAvailable ∧ new.buttonCallback = vc.didTapButton controller := by
  rw [bindViewModel] at h
  rw [didTapButton]
  cases hscreen : vc.screen with
  | roomsViewController =>
    simp only [hscreen, Option.map_eq_some_iff, Prod.mk.injEq] at h
    obtain ⟨rooms, _, rfl, rfl⟩ := h
    exact ⟨rfl, rfl⟩
  | workPlaceViewController =>
    simp only [hscreen, Option.map_eq_some_iff, Prod.mk.injEq] at h
    obtain ⟨workplace, _, rfl, rfl⟩ := h
    exact ⟨rfl, rfl⟩
  | _ => simp [hscreen] at h

/-- What a download or a new cell leaves of a controller. -/
structure ViewController.Extends (vc vc' : ViewController) : Prop where
  screen : vc'.screen = vc.screen
  cells : vc'.cells = vc.cells ∨ vc'.cells = vc.cells ++ [({} : DetailsCell)]

theorem ViewController.requestRooms_extends (rooms : List RoomsJSON) (vc : ViewController) :
    vc.Extends (vc.requestRooms rooms) := by
  rw [requestRooms]
  split
  · exact ⟨rfl, .inl rfl⟩
  · exact ⟨rfl, .inl rfl⟩

theorem ViewController.serviceWorkplace_extends (workplaces : List WorkPlace) (vc : ViewController) :
    vc.Extends (vc.serviceWorkplace workplaces) := by
  rw [serviceWorkplace]
  split
  · exact ⟨rfl, .inl rfl⟩
  · exact ⟨rfl, .inl rfl⟩

theorem ViewController.dequeue_extends (vc : ViewController) : vc.Extends vc.dequeue := by
  rw [dequeue]
  split
  · exact ⟨rfl, .inr rfl⟩
  · exact ⟨rfl, .inl rfl⟩

theorem ViewController.dequeue_lists (vc : ViewController) :
    vc.dequeue.rooms = vc.rooms ∧ vc.dequeue.workplaces = vc.workplaces := by
  rw [dequeue]
  split
  · exact ⟨rfl, rfl⟩
  · exact ⟨rfl, rfl⟩

namespace BookingApp

/-- An answer of the backend reaches the login screen wherever it is. -/
def Receives (app : BookingApp) : LoginEvent → Prop
  | .completion _ _ => True
  | _ => app.topViewController.map (·.2.screen) = some .authorizationViewController

inductive Steps (app : BookingApp) : BookingEvent → BookingApp × List BookingEffect → Prop
  | idle (e : BookingEvent) : Steps app e (app, [])
  | login {event : LoginEvent} {login : AuthorizationViewController} {effects : List LoginEffect}
      (hreceives : app.Receives event) (hstep : app.login.step event = (login, effects))
      (hroot : .pushView ∈ effects → 0 ∉ app.viewControllers) :
      Steps app (.login event) ({ app with login := login }, effects.map .login)
  | pushView {call : Nat} {login : AuthorizationViewController} (hp : call ∈ app.login.pending)
      (hl : app.login.isListening call = true)
      (hstep : app.login.step (.completion call none) = (login, [.pushView])) :
      Steps app (.login (.completion call none))
      (({ app with login := login }.pushViewController .officeChoiceController).1,
        [.login .pushView, .pushed app.controllers.length .officeChoiceController])
  | didSelectRow {c : Nat} {vc : ViewController} (htop : app.topViewController = some (c, vc))
      (hscreen : vc.screen = .officeChoiceController) :
      Steps app .didSelectRow (app.pushViewController .roomsViewController)
  | extend (e : BookingEvent) {c : Nat} {vc vc' : ViewController} (hvc : app.controllers[c]? = some vc)
      (hextends : vc.Extends vc')
      (hlists : e.isDownload = false → vc'.rooms = vc.rooms ∧ vc'.workplaces = vc.workplaces) :
      Steps app e ({ app with controllers := app.controllers.set c vc' }, [])
  | configure {c k row : Nat} {vc : ViewController} {old new : DetailsCell} {isAvailable : Bool}
      (hvc : app.controllers[c]? = some vc)
      (hbind : vc.bindViewModel c row old = some (new, isAvailable)) : Steps app (.configure c k row)
      ({ app with controllers := app.controllers.set c { vc with cells := vc.cells.set k new } },
        [.configured c k isAvailable])
  | touchDetails {c k : Nat} {vc : ViewController} {cell : DetailsCell} {callback : ButtonCallback}
      (htop : app.topViewController = some (c, vc)) (hcell : vc.cells[k]? = some cell)
      (hvisible : cell.isHidden = false) (hcallback : cell.buttonCallback = some callback) :
      Steps app (.touchDetails k) (app.pushViewController callback.screen)
  | back (hlength : 1 < app.viewControllers.length) :
      Steps app .back ({ app with viewControllers := app.viewControllers.dropLast }, [])

theorem loginEvent_cases {app : BookingApp} {event : LoginEvent} (hreceives : app.Receives event) :
    app.Steps (.login event) (app.loginEvent event) := by
  have hstep := app.login.step_cases event
  rw [loginEvent]
  generalize hnext : app.login.step event = next at hstep ⊢
  cases hstep with
  | success hp hs hg =>
    have hl := AuthorizationViewController.isListening_iff.mpr ⟨_, hs, hg⟩
    by_cases hroot : 0 ∈ app.viewControllers
    · simp only [performAll, perform, pushFrom, hroot, if_true]
      exact .pushView hp hl hnext
    · simp only [performAll, perform, pushFrom, hroot, if_false]
      exact .login hreceives hnext fun _ => hroot
  | _ => exact .login hreceives hnext fun hpush => by simp at hpush

theorem modify_cases (app : BookingApp) (e : BookingEvent) (c : Nat) {f : ViewController → ViewController}
    (hf : ∀ vc : ViewController, vc.Extends (f vc))
    (hlists : e.isDownload = false → ∀ vc : ViewController, (f vc).rooms = vc.rooms ∧
      (f vc).workplaces = vc.workplaces) : app.Steps e (app.modify c f) := by
  rw [modify]
  cases hvc : app.controllers[c]? with
  | none => exact .idle e
  | some vc => exact .extend e hvc (hf vc) fun he => hlists he vc

theorem configure_cases (app : BookingApp) (c k row : Nat) :
    app.Steps (.configure c k row) (app.configure c k row) := by
  rw [configure]
  cases hvc : app.controllers[c]? with
  | none => exact .idle _
  | some vc =>
    cases hcell : vc.cells[k]? with
    | none => simpa only [hcell] using .idle _
    | some old =>
      cases hbind : vc.bindViewModel c row old with
      | none => simpa only [hcell, hbind] using .idle _
      | some bound => simpa only [hcell, hbind] using .configure hvc hbind

theorem pushFrom_cases {app : BookingApp} {e : BookingEvent} {screen : Screen} (sourceVC : Nat)
    (h : app.Steps e (app.pushViewController screen)) : app.Steps e (app.pushFrom sourceVC screen) := by
  rw [pushFrom]
  split
  · exact h
  · exact .idle e

theorem didSelectRow_cases (app : BookingApp) : app.Steps .didSelectRow app.didSelectRow := by
  rw [didSelectRow]
  cases htop : app.topViewController with
  | none => exact .idle _
  | some top =>
    by_cases hscreen : top.2.screen = .officeChoiceController
    · simp only [hscreen, if_true]
      exact pushFrom_cases top.1 (.didSelectRow htop hscreen)
    · simp only [hscreen, if_false]
      exact .idle _

theorem touchDetails_cases (app : BookingApp) (k : Nat) :
    app.Steps (.touchDetails k) (app.touchDetails k) := by
  rw [touchDetails]
  cases htop : app.topViewController with
  | none => exact .idle _
  | some top =>
    cases hcell : top.2.cells[k]? with
    | none => simpa only [hcell] using .idle _
    | some cell =>
      cases hhidden : cell.isHidden with
      | true => simpa only [hcell, hhidden, if_true] using .idle _
      | false =>
        cases hcallback : cell.buttonCallback with
        | none => simpa only [hcell, hhidden, hcallback] using .idle _
        | some callback =>
          simp only [hcell, hhidden, hcallback, Bool.false_eq_true, if_false]
          have hpush := Steps.touchDetails htop hcell hhidden hcallback
          cases callback with
          | pushRooms sourceVC => exact pushFrom_cases sourceVC hpush
          | pushWorkplace sourceVC => exact pushFrom_cases sourceVC hpush

theorem step_cases (app : BookingApp) (e : BookingEvent) : app.Steps e (app.step e) := by
  cases e with
  | login event =>
    cases event with
    | completion call error => exact loginEvent_cases trivial
    | _ =>
      rw [step]
      · split
        case isTrue htop => exact loginEvent_cases htop
        case isFalse => exact .idle _
      · simp
  | didSelectRow => exact app.didSelectRow_cases
  | requestRooms c rooms =>
    exact app.modify_cases _ c (ViewController.requestRooms_extends rooms) fun he => by cases he
  | serviceWorkplace c workplaces =>
    exact app.modify_cases _ c (ViewController.serviceWorkplace_extends workplaces) fun he => by cases he
  | dequeue c => exact app.modify_cases _ c ViewController.dequeue_extends fun _ => ViewController.dequeue_lists
  | reuse _ _ => exact .idle _
  | configure c k row => exact app.configure_cases c k row
  | touchDetails k => exact app.touchDetails_cases k
  | back =>
    change app.Steps .back (app.popViewController, [])
    rw [popViewController]
    split
    case isTrue hlength => exact .back hlength
    case isFalse => exact .idle _

end BookingApp

theorem ViewController.getElem?_set {controllers : List ViewController} {c : Nat} {vc vc' : ViewController}
    (hvc : controllers[c]? = some vc) (hscreen : vc'.screen = vc.screen) {d : Nat} {wc : ViewController}
    (hwc : controllers[d]? = some wc) :
    ∃ (wc' : ViewController), (controllers.set c vc')[d]? = some wc' ∧ wc'.screen = wc.screen := by
  by_cases hd : d = c
  · subst hd
    obtain rfl := Option.some.inj (hvc.symm.trans hwc)
    exact ⟨vc', by rw [List.getElem?_set_self', hwc]; rfl, hscreen⟩
  · exact ⟨wc, by rwa [List.getElem?_set_ne (Ne.symm hd)], rfl⟩

/-- A controller stays of its kind. -/
theorem BookingApp.step_screen {app : BookingApp} (e : BookingEvent) {c : Nat} {vc : ViewController}
    (hvc : app.controllers[c]? = some vc) :
    ∃ (vc' : ViewController), (app.step e).1.controllers[c]? = some vc' ∧ vc'.screen = vc.screen := by
  have hpush (screen : Screen) : (app.controllers ++ [({ screen := screen } : ViewController)])[c]? = some vc := by
    rw [List.getElem?_append_left (List.getElem?_eq_some_iff.mp hvc).1]
    exact hvc
  have hstep := app.step_cases e
  generalize app.step e = next at hstep ⊢
  cases hstep with
  | idle => exact ⟨vc, hvc, rfl⟩
  | login _ _ _ => exact ⟨vc, hvc, rfl⟩
  | pushView _ _ _ => exact ⟨vc, hpush _, rfl⟩
  | didSelectRow _ _ => exact ⟨vc, hpush _, rfl⟩
  | extend _ hold hextends => exact ViewController.getElem?_set hold hextends.screen hvc
  | @configure d k _ old _ new _ hold _ =>
    have hscreen : ({ old with cells := old.cells.set k new } : ViewController).screen = old.screen := rfl
    exact ViewController.getElem?_set hold hscreen hvc
  | touchDetails _ _ _ _ => exact ⟨vc, hpush _, rfl⟩
  | back _ => exact ⟨vc, hvc, rfl⟩

/-- A controller that was not there before the event was pushed by it. -/
theorem BookingApp.step_pushed {app : BookingApp} {e : BookingEvent} {c : Nat} {vc : ViewController}
    (hnone : app.controllers[c]? = none) (hvc : (app.step e).1.controllers[c]? = some vc) :
    .pushed c vc.screen ∈ (app.step e).2 := by
  have hlength : app.controllers.length ≤ c := List.getElem?_eq_none_iff.mp hnone
  have hold {d : Nat} {wc : ViewController} (hset : (app.controllers.set d wc)[c]? = some vc) : False := by
    have hlt := (List.getElem?_eq_some_iff.mp hset).1
    rw [List.length_set] at hlt
    omega
  have hpush {screen : Screen}
      (hnew : (app.controllers ++ [({ screen := screen } : ViewController)])[c]? = some vc) :
      c = app.controllers.length ∧ vc = { screen := screen } := by
    have hlt := (List.getElem?_eq_some_iff.mp hnew).1
    rw [List.length_append, List.length_singleton] at hlt
    have hc : c = app.controllers.length := by omega
    subst hc
    rw [List.getElem?_concat_length, Option.some.injEq] at hnew
    exact ⟨rfl, hnew.symm⟩
  have hstep := app.step_cases e
  generalize app.step e = next at hstep hvc ⊢
  cases hstep with
  | pushView _ _ _ =>
    obtain ⟨rfl, rfl⟩ := hpush hvc
    simp
  | didSelectRow _ _ =>
    obtain ⟨rfl, rfl⟩ := hpush hvc
    exact List.mem_singleton_self _
  | touchDetails _ _ _ _ =>
    obtain ⟨rfl, rfl⟩ := hpush hvc
    exact List.mem_singleton_self _
  | extend _ _ _ => exact (hold hvc).elim
  | configure _ _ => exact (hold hvc).elim
  | _ => simp [hnone] at hvc

theorem booking_screen {app : BookingApp} (es : List BookingEvent) {c : Nat} {vc : ViewController}
    (hvc : app.controllers[c]? = some vc) :
    ∃ (vc' : ViewController), (booking.run app es).controllers[c]? = some vc' ∧ vc'.screen = vc.screen := by
  induction es using List.reverseRecOn with
  | nil => exact ⟨vc, hvc, rfl⟩
  | append_singleton es e ih =>
    obtain ⟨wc, hwc, hscreen⟩ := ih
    obtain ⟨vc', hvc', hscreen'⟩ := BookingApp.step_screen e hwc
    rw [Machine.run_snoc]
    exact ⟨vc', hvc', hscreen'.trans hscreen⟩

end Reservation
