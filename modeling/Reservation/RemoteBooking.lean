import Reservation.BookingDownloads
import Reservation.ServiceDownloadData

/-! The way to the booking form together with the requests behind its two tables.
Every controller with a table has a request of its own, made when it is pushed,
whose task goes on wherever the controller is. -/

namespace Reservation

open LawfulDecodable

inductive RemoteEvent
  | login (event : LoginEvent)
  | didSelectRow
  | dequeue (controller : Nat)
  | reuse (controller cell : Nat)
  | configure (controller cell row : Nat)
  | touchDetails (cell : Nat)
  | back
  | task (controller : Nat) (event : DataTaskEvent)
  deriving DecidableEq

inductive RemoteEffect
  | booking (effect : BookingEffect)
  | bindingError (controller : Nat) (error : DownloadError)
  deriving DecidableEq

def RemoteEffect.bookingEffect : RemoteEffect → Option BookingEffect
  | booking effect => some effect
  | bindingError _ _ => none

structure RemoteApp where
  app : BookingApp
  request : Nat → DataRequest

/-- What an event of a task comes to: the lists that reach the table, and the
errors of the binding. -/
structure Delivery where
  request : DataRequest
  lists : List BookingEvent
  errors : List DownloadError

/-- The table takes every list; an error leaves it as it is, and completion is
followed by `Observable.never()`. -/
def subscribeProxyDataSource {α : Type} (binding : List α → BookingEvent)
    (next : DataRequest × List (Rx.Event DownloadError (List α))) : Delivery where
  request := next.1
  lists := next.2.filterMap fun
    | .next values => some (binding values)
    | _ => none
  errors := next.2.filterMap fun
    | .error error => some error
    | _ => none

namespace RemoteApp

def launch (email password : Text) : RemoteApp := ⟨.launch email password, fun _ => {}⟩

def deliver (json : JSONSerialization) (s : RemoteApp) (controller : Nat) (event : DataTaskEvent) :
    Delivery :=
  match s.app.controllers[controller]?.map ViewController.screen with
  | some .roomsViewController =>
    subscribeProxyDataSource (.requestRooms controller)
      ((ServiceDownloadData.requestRooms json).step (s.request controller) event)
  | some .workPlaceViewController =>
    subscribeProxyDataSource (.serviceWorkplace controller)
      ((ServiceDownloadData.serviceWorkplace json).step (s.request controller) event)
  -- no request was made
  | _ => ⟨s.request controller, [], []⟩

def passes (json : JSONSerialization) (s : RemoteApp) : RemoteEvent → List BookingEvent
  | .login event => [.login event]
  | .didSelectRow => [.didSelectRow]
  | .dequeue controller => [.dequeue controller]
  | .reuse controller cell => [.reuse controller cell]
  | .configure controller cell row => [.configure controller cell row]
  | .touchDetails cell => [.touchDetails cell]
  | .back => [.back]
  | .task controller event => (s.deliver json controller event).lists

def requests (json : JSONSerialization) (s : RemoteApp) : RemoteEvent → Nat → DataRequest
  | .task controller event =>
    Function.update s.request controller (s.deliver json controller event).request
  | _ => s.request

def bindingErrors (json : JSONSerialization) (s : RemoteApp) : RemoteEvent → List RemoteEffect
  | .task controller event => (s.deliver json controller event).errors.map (.bindingError controller)
  | _ => []

def step (json : JSONSerialization) (s : RemoteApp) (e : RemoteEvent) : RemoteApp × List RemoteEffect :=
  (⟨booking.run s.app (s.passes json e), s.requests json e⟩,
    (booking.outputs s.app (s.passes json e)).map .booking ++ s.bindingErrors json e)

end RemoteApp

def remoteBooking (json : JSONSerialization) : Machine RemoteApp RemoteEvent RemoteEffect :=
  ⟨RemoteApp.step json⟩

/-- The history of the screens behind a history with the network. -/
def bookingEvents (json : JSONSerialization) (email password : Text) (es : List RemoteEvent) :
    List BookingEvent :=
  (remoteBooking json).passedOn (RemoteApp.passes json) (.launch email password) es

end Reservation
