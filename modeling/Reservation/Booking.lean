import Reservation.Navigation
import Reservation.Catalogue

/-! The way to the booking form, with the cells of the two tables on it. What
guards a details button is the flag and the closure that the last `configure`
of its cell left there. -/

namespace Reservation

/-- The closure a cell is given: the router it calls and the controller it
captures, as the place of this among all controllers ever made. -/
inductive ButtonCallback
  | pushRooms (sourceVC : Nat)
  | pushWorkplace (sourceVC : Nat)
  deriving DecidableEq

def ButtonCallback.sourceVC : ButtonCallback → Nat
  | pushRooms sourceVC => sourceVC
  | pushWorkplace sourceVC => sourceVC

/-- A `RoomsTableViewCell` or a `WorkPlaceTableViewCell`; `isHidden` is that of
its details button. -/
structure DetailsCell where
  isHidden : Bool := false
  text : Option String := none
  buttonCallback : Option ButtonCallback := none
  deriving DecidableEq

def DetailsCell.configure (cell : DetailsCell) (isAvailable : Bool) (text : String)
    (didTapButton : ButtonCallback) : DetailsCell :=
  { cell with isHidden := !isAvailable, text := some text, buttonCallback := some didTapButton }

def RoomsTableViewCell.configure (cell : DetailsCell) (text : String) (isAvailable : Bool)
    (didTapButton : ButtonCallback) : DetailsCell := cell.configure isAvailable text didTapButton

def WorkPlaceTableViewCell.configure (cell : DetailsCell) (isAvailable : Bool) (text : String)
    (didTapButton : ButtonCallback) : DetailsCell := cell.configure isAvailable text didTapButton

structure ViewController where
  screen : Screen
  rooms : List RoomsJSON := []
  workplaces : List WorkPlace := []
  cells : List DetailsCell := []
  deriving DecidableEq

namespace ViewController

def requestRooms (rooms : List RoomsJSON) (vc : ViewController) : ViewController :=
  if vc.screen = .roomsViewController then { vc with rooms := rooms } else vc

def serviceWorkplace (workplaces : List WorkPlace) (vc : ViewController) : ViewController :=
  if vc.screen = .workPlaceViewController then { vc with workplaces := workplaces } else vc

/-- A new cell: its button shows and it has no closure yet. -/
def dequeue (vc : ViewController) : ViewController :=
  if vc.screen = .roomsViewController ∨ vc.screen = .workPlaceViewController then
    { vc with cells := vc.cells ++ [{}] }
  else vc

/-- The cell as the closure in `bindViewModel` leaves it for a row of the table,
and the availability it was given. -/
def bindViewModel (vc : ViewController) (controller row : Nat) (cell : DetailsCell) :
    Option (DetailsCell × Bool) :=
  match vc.screen with
  | .roomsViewController =>
    vc.rooms[row]?.map fun rooms =>
      (RoomsTableViewCell.configure cell rooms.name rooms.isAvailable (.pushRooms controller),
        rooms.isAvailable)
  | .workPlaceViewController =>
    vc.workplaces[row]?.map fun workplace =>
      (WorkPlaceTableViewCell.configure cell workplace.isAvailable
          (workplace.name ++ " " ++ workplace.number) (.pushWorkplace controller),
        workplace.isAvailable)
  | _ => none

end ViewController

inductive BookingEvent
  | login (event : LoginEvent)
  | didSelectRow
  | requestRooms (controller : Nat) (rooms : List RoomsJSON)
  | serviceWorkplace (controller : Nat) (workplaces : List WorkPlace)
  | dequeue (controller : Nat)
  -- a cell out of the reuse queue is as it was left
  | reuse (controller cell : Nat)
  | configure (controller cell row : Nat)
  | touchDetails (cell : Nat)
  | back
  deriving DecidableEq

def BookingEvent.isDownload : BookingEvent → Bool
  | requestRooms _ _ => true
  | serviceWorkplace _ _ => true
  | _ => false

inductive BookingEffect
  | login (effect : LoginEffect)
  | configured (controller cell : Nat) (isAvailable : Bool)
  | pushed (controller : Nat) (screen : Screen)
  deriving DecidableEq

/-- `controllers` are all that were ever made, the popped ones too; the stack
names them by their places. -/
structure BookingApp where
  login : AuthorizationViewController
  controllers : List ViewController
  viewControllers : List Nat
  deriving DecidableEq

namespace BookingApp

def launch (email password : Text) : BookingApp :=
  ⟨.viewDidLoad email password, [{ screen := .authorizationViewController }], [0]⟩

def topViewController (app : BookingApp) : Option (Nat × ViewController) :=
  app.viewControllers.getLast?.bind fun c => app.controllers[c]?.map fun vc => (c, vc)

def pushViewController (app : BookingApp) (screen : Screen) : BookingApp × List BookingEffect :=
  ({ app with
      controllers := app.controllers ++ [{ screen := screen }]
      viewControllers := app.viewControllers ++ [app.controllers.length] },
    [.pushed app.controllers.length screen])

/-- `sourceVC.navigationController?` is nil unless `sourceVC` is in the stack. -/
def pushFrom (app : BookingApp) (sourceVC : Nat) (screen : Screen) : BookingApp × List BookingEffect :=
  if sourceVC ∈ app.viewControllers then app.pushViewController screen else (app, [])

def perform (app : BookingApp) : LoginEffect → BookingApp × List BookingEffect
  -- the login screen is the controller of the launch
  | .pushView => app.pushFrom 0 .officeChoiceController
  | _ => (app, [])

def performAll (app : BookingApp) : List LoginEffect → BookingApp × List BookingEffect
  | [] => (app, [])
  | effect :: effects =>
    let next := app.perform effect
    let rest := performAll next.1 effects
    (rest.1, .login effect :: next.2 ++ rest.2)

def loginEvent (app : BookingApp) (event : LoginEvent) : BookingApp × List BookingEffect :=
  let next := app.login.step event
  performAll { app with login := next.1 } next.2

def didSelectRow (app : BookingApp) : BookingApp × List BookingEffect :=
  match app.topViewController with
  | none => (app, [])
  | some (c, vc) =>
    if vc.screen = .officeChoiceController then app.pushFrom c .roomsViewController else (app, [])

def modify (app : BookingApp) (controller : Nat) (f : ViewController → ViewController) :
    BookingApp × List BookingEffect :=
  match app.controllers[controller]? with
  | none => (app, [])
  | some vc => ({ app with controllers := app.controllers.set controller (f vc) }, [])

def configure (app : BookingApp) (controller cell row : Nat) : BookingApp × List BookingEffect :=
  match app.controllers[controller]? with
  | none => (app, [])
  | some vc =>
    match vc.cells[cell]? with
    | none => (app, [])
    | some old =>
      match vc.bindViewModel controller row old with
      | none => (app, [])
      | some (new, isAvailable) =>
        ({ app with controllers :=
            app.controllers.set controller { vc with cells := vc.cells.set cell new } },
          [.configured controller cell isAvailable])

def call (app : BookingApp) : ButtonCallback → BookingApp × List BookingEffect
  | .pushRooms sourceVC => app.pushFrom sourceVC .workPlaceViewController
  | .pushWorkplace sourceVC => app.pushFrom sourceVC .chooseDateVC

def touchDetails (app : BookingApp) (cell : Nat) : BookingApp × List BookingEffect :=
  match app.topViewController with
  | none => (app, [])
  | some (_, vc) =>
    match vc.cells[cell]? with
    | none => (app, [])
    | some touched =>
      -- a hidden button receives no touch
      if touched.isHidden then (app, [])
      else
        match touched.buttonCallback with
        | none => (app, [])
        | some callback => app.call callback

def popViewController (app : BookingApp) : BookingApp :=
  if 1 < app.viewControllers.length then
    { app with viewControllers := app.viewControllers.dropLast }
  else app

def step (app : BookingApp) : BookingEvent → BookingApp × List BookingEffect
  | .login (.completion call error) => app.loginEvent (.completion call error)
  | .login event =>
    if app.topViewController.map (·.2.screen) = some .authorizationViewController then
      app.loginEvent event
    else (app, [])
  | .didSelectRow => app.didSelectRow
  | .requestRooms controller rooms => app.modify controller (·.requestRooms rooms)
  | .serviceWorkplace controller workplaces => app.modify controller (·.serviceWorkplace workplaces)
  | .dequeue controller => app.modify controller (·.dequeue)
  | .reuse _ _ => (app, [])
  | .configure controller cell row => app.configure controller cell row
  | .touchDetails cell => app.touchDetails cell
  | .back => (app.popViewController, [])

end BookingApp

def booking : Machine BookingApp BookingEvent BookingEffect := ⟨BookingApp.step⟩

namespace BookingApp

theorem topViewController_eq_some {app : BookingApp} {c : Nat} {vc : ViewController} :
    app.topViewController = some (c, vc) ↔
      app.viewControllers.getLast? = some c ∧ app.controllers[c]? = some vc := by
  simp only [topViewController, Option.bind_eq_some_iff, Option.map_eq_some_iff, Prod.mk.injEq]
  constructor
  · rintro ⟨c', hlast, vc', hvc, rfl, rfl⟩
    exact ⟨hlast, hvc⟩
  · rintro ⟨hlast, hvc⟩
    exact ⟨c, hlast, vc, hvc, rfl, rfl⟩

end BookingApp

end Reservation
