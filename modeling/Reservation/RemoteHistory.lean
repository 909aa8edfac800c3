import Reservation.RemoteBooking

/-! What the screens have seen over a history with the network, and what has
come to each request. -/

namespace Reservation

open LawfulDecodable

/-- The event of the network that the screens see as this one, unless a download
brings it. -/
def BookingEvent.remote : BookingEvent → Option RemoteEvent
  | login event => some (.login event)
  | didSelectRow => some .didSelectRow
  | requestRooms _ _ => none
  | serviceWorkplace _ _ => none
  | dequeue controller => some (.dequeue controller)
  | reuse controller cell => some (.reuse controller cell)
  | configure controller cell row => some (.configure controller cell row)
  | touchDetails cell => some (.touchDetails cell)
  | back => some .back

def RemoteEvent.taskEvent (c : Nat) : RemoteEvent → Option DataTaskEvent
  | task controller event => if controller = c then some event else none
  | _ => none

section

variable {α : Type} {binding : List α → BookingEvent}

theorem subscribeProxyDataSource_length [Decodable α] {json : JSONSerialization} {request : DataRequest}
    {event : DataTaskEvent} {url : String} : (subscribeProxyDataSource binding
    ((ServiceDownloadData.downloading json url).step request event)).lists.length ≤ 1 := by
  rw [subscribeProxyDataSource]
  rcases @ServiceDownloadData.step_shape α _ json url request event with h | ⟨values, h⟩ | ⟨error, h⟩
  · simp [h]
  · simp [h]
  · simp [h]

theorem mem_subscribeProxyDataSource {next : DataRequest × List (Rx.Event DownloadError (List α))}
    {b : BookingEvent} : b ∈ (subscribeProxyDataSource binding next).lists ↔
      ∃ values, .next values ∈ next.2 ∧ b = binding values := by
  rw [subscribeProxyDataSource, List.mem_filterMap]
  constructor
  · rintro ⟨item, hitem, hb⟩
    cases item with
    | next values => exact ⟨values, hitem, (Option.some.inj hb).symm⟩
    | error error => simp at hb
    | completed => simp at hb
  · rintro ⟨values, hvalues, rfl⟩
    exact ⟨.next values, hvalues, rfl⟩

end

namespace RemoteApp

/-- The controller has a table that is filled by a request. -/
def HasTable (s : RemoteApp) (c : Nat) : Prop :=
  ∃ (vc : ViewController), s.app.controllers[c]? = some vc ∧
    (vc.screen = .roomsViewController ∨ vc.screen = .workPlaceViewController)

variable {json : JSONSerialization} {s : RemoteApp} {c : Nat} {event : DataTaskEvent}

theorem deliver_rooms {vc : ViewController} (hvc : s.app.controllers[c]? = some vc)
    (hscreen : vc.screen = .roomsViewController) : s.deliver json c event =
      subscribeProxyDataSource (.requestRooms c)
        ((ServiceDownloadData.requestRooms json).step (s.request c) event) := by
  simp only [deliver, hvc, Option.map_some, hscreen]

theorem deliver_workplaces {vc : ViewController} (hvc : s.app.controllers[c]? = some vc)
    (hscreen : vc.screen = .workPlaceViewController) : s.deliver json c event =
      subscribeProxyDataSource (.serviceWorkplace c)
        ((ServiceDownloadData.serviceWorkplace json).step (s.request c) event) := by
  simp only [deliver, hvc, Option.map_some, hscreen]

theorem deliver_none (h : ¬ s.HasTable c) : s.deliver json c event = ⟨s.request c, [], []⟩ := by
  rw [deliver]
  cases hvc : s.app.controllers[c]? with
  | none => rfl
  | some vc =>
    cases hscreen : vc.screen with
    | roomsViewController => exact (h ⟨vc, hvc, .inl hscreen⟩).elim
    | workPlaceViewController => exact (h ⟨vc, hvc, .inr hscreen⟩).elim
    | _ => simp [hscreen]

theorem deliver_request (h : s.HasTable c) :
    (s.deliver json c event).request = (s.request c).advance event := by
  obtain ⟨vc, hvc, hscreen | hscreen⟩ := h
  · rw [deliver_rooms hvc hscreen]
    rfl
  · rw [deliver_workplaces hvc hscreen]
    rfl

theorem deliver_length : (s.deliver json c event).lists.length ≤ 1 := by
  by_cases h : s.HasTable c
  · obtain ⟨vc, hvc, hscreen | hscreen⟩ := h
    · rw [deliver_rooms hvc hscreen]
      exact subscribeProxyDataSource_length
    · rw [deliver_workplaces hvc hscreen]
      exact subscribeProxyDataSource_length
  · rw [deliver_none h]
    exact Nat.zero_le 1

theorem mem_deliver {b : BookingEvent} (h : b ∈ (s.deliver json c event).lists) :
    s.HasTable c ∧
      ((∃ list, b = .requestRooms c list ∧
          .next list ∈ ((ServiceDownloadData.requestRooms json).step (s.request c) event).2) ∨
        ∃ list, b = .serviceWorkplace c list ∧
          .next list ∈ ((ServiceDownloadData.serviceWorkplace json).step (s.request c) event).2) := by
  by_cases htable : s.HasTable c
  · refine ⟨htable, ?_⟩
    obtain ⟨vc, hvc, hscreen | hscreen⟩ := htable
    · rw [deliver_rooms hvc hscreen] at h
      obtain ⟨list, hlist, rfl⟩ := mem_subscribeProxyDataSource.mp h
      exact .inl ⟨list, rfl, hlist⟩
    · rw [deliver_workplaces hvc hscreen] at h
      obtain ⟨list, hlist, rfl⟩ := mem_subscribeProxyDataSource.mp h
      exact .inr ⟨list, rfl, hlist⟩
  · rw [deliver_none htable] at h
    simp at h

theorem passes_length (json : JSONSerialization) (s : RemoteApp) (e : RemoteEvent) : (s.passes json e).length ≤ 1 := by
  cases e with
  | task c event => exact deliver_length
  | _ => exact Nat.le_refl 1

theorem passes_remote {e e' : RemoteEvent} {b : BookingEvent} (h : b ∈ s.passes json e)
    (hb : b.remote = some e') : e = e' := by
  cases e with
  | task c event =>
    obtain ⟨_, ⟨list, rfl, _⟩ | ⟨list, rfl, _⟩⟩ := mem_deliver h
    · simp [BookingEvent.remote] at hb
    · simp [BookingEvent.remote] at hb
  | _ =>
    obtain rfl := List.mem_singleton.mp h
    exact Option.some.inj hb

theorem passes_download {e : RemoteEvent} {b : BookingEvent} (h : b ∈ s.passes json e)
    (hb : b.remote = none) : ∃ c event, e = .task c event ∧ b ∈ (s.deliver json c event).lists := by
  cases e with
  | task c event => exact ⟨c, event, rfl, h⟩
  | _ =>
    obtain rfl := List.mem_singleton.mp h
    simp [BookingEvent.remote] at hb

theorem requests_table {e : RemoteEvent} (h : s.HasTable c) :
    s.requests json e c = (e.taskEvent c).toList.foldl DataRequest.advance (s.request c) := by
  cases e with
  | task d event =>
    by_cases hd : d = c
    · subst hd
      simp [requests, RemoteEvent.taskEvent, deliver_request h]
    · simp [requests, RemoteEvent.taskEvent, hd, Function.update_of_ne (Ne.symm hd)]
  | _ => rfl

theorem requests_none {e : RemoteEvent} (h : ¬ s.HasTable c) : s.requests json e c = s.request c := by
  cases e with
  | task d event =>
    by_cases hd : d = c
    · subst hd
      simp [requests, deliver_none h]
    · simp [requests, Function.update_of_ne (Ne.symm hd)]
  | _ => rfl

theorem HasTable.step (h : s.HasTable c) (e : RemoteEvent) : (s.step json e).1.HasTable c := by
  obtain ⟨vc, hvc, htable⟩ := h
  obtain ⟨vc', hvc', hscreen⟩ := booking_screen (s.passes json e) hvc
  exact ⟨vc', hvc', hscreen ▸ htable⟩

/-- A table is new when its controller is pushed. -/
theorem HasTable.pushed {e : RemoteEvent} (hold : ¬ s.HasTable c) (h : (s.step json e).1.HasTable c) :
    ∃ screen, .booking (.pushed c screen) ∈ (s.step json e).2 := by
  obtain ⟨vc, hvc, htable⟩ := h
  have hnone : s.app.controllers[c]? = none := by
    cases hwc : s.app.controllers[c]? with
    | none => rfl
    | some wc =>
      obtain ⟨vc', hvc', hscreen⟩ := booking_screen (s.passes json e) hwc
      obtain rfl : vc' = vc := Option.some.inj (hvc'.symm.trans hvc)
      exact (hold ⟨wc, hwc, hscreen ▸ htable⟩).elim
  change (booking.run s.app (s.passes json e)).controllers[c]? = some vc at hvc
  have hlength := s.passes_length json e
  rw [RemoteApp.step]
  cases hpasses : s.passes json e with
  | nil => simp [hpasses, hnone] at hvc
  | cons b rest =>
    have hrest : rest = [] := by
      rw [hpasses, List.length_cons] at hlength
      exact List.length_eq_zero_iff.mp (by omega)
    subst hrest
    rw [hpasses] at hvc
    have hpushed := BookingApp.step_pushed hnone hvc
    refine ⟨vc.screen, List.mem_append_left _ (List.mem_map_of_mem ?_)⟩
    rw [Machine.outputs]
    exact List.mem_append_left _ hpushed

end RemoteApp

section

variable (json : JSONSerialization) (email password : Text)

/-- The screens are as the history behind them leaves them. -/
theorem remoteBooking_app (es : List RemoteEvent) :
    ((remoteBooking json).run (.launch email password) es).app =
      booking.run (.launch email password) (bookingEvents json email password es) :=
  Machine.run_passedOn (fun _ _ => rfl) _ es

theorem mem_emit_booking {past : List RemoteEvent} {e : RemoteEvent} {effect : BookingEffect} :
    .booking effect ∈ (remoteBooking json).emit (.launch email password) past e ↔
      ∃ b ∈ ((remoteBooking json).run (.launch email password) past).passes json e,
        effect ∈ booking.emit (.launch email password) (bookingEvents json email password past) b := by
  have happ := remoteBooking_app json email password past
  have hlength := ((remoteBooking json).run (.launch email password) past).passes_length json e
  have hnone : ∀ (s : RemoteApp), RemoteEffect.booking effect ∉ s.bindingErrors json e := by
    intro s
    cases e <;> simp [RemoteApp.bindingErrors]
  simp only [Machine.emit, ← happ]
  generalize (remoteBooking json).run (.launch email password) past = s at hlength ⊢
  simp only [remoteBooking, RemoteApp.step, List.mem_append, hnone, or_false]
  rw [List.mem_map]
  cases hpasses : s.passes json e with
  | nil => simp [Machine.outputs]
  | cons b rest =>
    have hrest : rest = [] := by
      rw [hpasses, List.length_cons] at hlength
      exact List.length_eq_zero_iff.mp (by omega)
    subst hrest
    simp [Machine.outputs]

theorem bookingEvents_split {es : List RemoteEvent} {before after : List BookingEvent} {b : BookingEvent}
    (h : bookingEvents json email password es = before ++ b :: after) :
    ∃ past e future, es = past ++ e :: future ∧ bookingEvents json email password past = before ∧
      b ∈ ((remoteBooking json).run (.launch email password) past).passes json e ∧
      (remoteBooking json).passedOn (RemoteApp.passes json)
        ((remoteBooking json).run (.launch email password) (past ++ [e])) future = after := by
  obtain ⟨past, e, future, hes, hpast, hb, hfuture⟩ :=
    Machine.passedOn_split (fun s e => s.passes_length json e) h
  exact ⟨past, e, future, hes, hpast, by rw [hb]; exact List.mem_singleton_self b, hfuture⟩

/-- The controller was pushed in the history, and these are the events of its
task since. -/
def TaskSince (past : List RemoteEvent) (c : Nat) (events : List DataTaskEvent) : Prop :=
  ∃ before e after screen, past = before ++ e :: after ∧
    .booking (.pushed c screen) ∈ (remoteBooking json).emit (.launch email password) before e ∧
    events = after.filterMap (RemoteEvent.taskEvent c)

/-- The bytes of the controller's task, which is complete, are a document that
carries the list. -/
def Downloaded {α : Type} [Decodable α] [LawfulDecodable α] (past : List RemoteEvent) (c : Nat)
    (list : List α) : Prop :=
  ∃ events data j, TaskSince json email password past c events ∧ receivedData events = some data ∧
    json.jsonObject data = some j ∧ j.Carries (encode list)

/-- A request has taken every event of its task; where there is no table there
is no request. -/
structure Requested (past : List RemoteEvent) (s : RemoteApp) : Prop where
  table : ∀ (c : Nat), s.HasTable c → ∃ events, TaskSince json email password past c events ∧
    s.request c = events.foldl DataRequest.advance {}
  none : ∀ (c : Nat), ¬ s.HasTable c → s.request c = {}

end

section

variable {json : JSONSerialization} {email password : Text} {past : List RemoteEvent} {c : Nat}

theorem TaskSince.snoc {events : List DataTaskEvent} (h : TaskSince json email password past c events)
    (e : RemoteEvent) : TaskSince json email password (past ++ [e]) c (events ++ (e.taskEvent c).toList) := by
  obtain ⟨before, push, after, screen, rfl, hpush, rfl⟩ := h
  refine ⟨before, push, after ++ [e], screen, by simp, hpush, ?_⟩
  rw [List.filterMap_append]
  cases htask : e.taskEvent c <;> simp [htask]

theorem Downloaded.snoc {α : Type} [Decodable α] [LawfulDecodable α] {list : List α}
    (h : Downloaded json email password past c list) (e : RemoteEvent) :
    Downloaded json email password (past ++ [e]) c list := by
  obtain ⟨events, data, j, htask, hdata, hj, hcarries⟩ := h
  exact ⟨_, data, j, htask.snoc e, receivedData_append hdata _, hj, hcarries⟩

theorem Requested.step (h : Requested json email password past
    ((remoteBooking json).run (.launch email password) past)) (e : RemoteEvent) :
    Requested json email password (past ++ [e])
      ((remoteBooking json).step ((remoteBooking json).run (.launch email password) past) e).1 := by
  constructor
  · intro c htable
    by_cases hold : ((remoteBooking json).run (.launch email password) past).HasTable c
    · obtain ⟨events, htask, hrequest⟩ := h.table c hold
      refine ⟨_, htask.snoc e, ?_⟩
      rw [List.foldl_append, ← hrequest]
      exact RemoteApp.requests_table hold
    · -- the request of a table that was just pushed
      obtain ⟨screen, hpushed⟩ := RemoteApp.HasTable.pushed hold htable
      refine ⟨[], ⟨past, e, [], screen, rfl, hpushed, rfl⟩, ?_⟩
      exact (RemoteApp.requests_none hold).trans (h.none c hold)
  · intro c hnone
    have hold : ¬ ((remoteBooking json).run (.launch email password) past).HasTable c :=
      fun htable => hnone (htable.step e)
    exact (RemoteApp.requests_none hold).trans (h.none c hold)

theorem remoteBooking_requested (json : JSONSerialization) (email password : Text) (es : List RemoteEvent) :
    Requested json email password es ((remoteBooking json).run (.launch email password) es) := by
  refine (remoteBooking json).run_invariant (P := Requested json email password) ?_
    (fun past e h => h.step e) es
  refine ⟨fun c htable => ?_, fun _ _ => rfl⟩
  obtain ⟨vc, hvc, hscreen⟩ := htable
  have hlaunch : vc = { screen := .authorizationViewController } := by
    simpa [RemoteApp.launch, BookingApp.launch] using List.mem_of_getElem? hvc
  simp [hlaunch] at hscreen

/-- A list that reaches a table now was downloaded as a whole. -/
theorem Requested.downloaded {α : Type} [Decodable α] [LawfulDecodable α] {s : RemoteApp}
    (h : Requested json email password past s) (htable : s.HasTable c) {event : DataTaskEvent}
    {list : List α} {url : String}
    (hnext : .next list ∈ ((@ServiceDownloadData.downloading α _ json url).step (s.request c) event).2) :
    Downloaded json email password (past ++ [.task c event]) c list := by
  obtain ⟨events, htask, hrequest⟩ := h.table c htable
  obtain ⟨error, j, rfl, hsuspended, hj, hcarries⟩ := ServiceDownloadData.step_next hnext
  rw [hrequest] at hsuspended hj
  obtain ⟨data, hdata, hbytes⟩ := DataRequest.receivedData_complete hsuspended error
  rw [hbytes] at hj
  refine ⟨_, data, j, htask.snoc _, ?_, hj, hcarries⟩
  simpa [RemoteEvent.taskEvent] using hdata

theorem downloaded_of_mem {α : Type} [Decodable α] [LawfulDecodable α]
    (url : String) {download : Nat → List α → BookingEvent} (hremote : ∀ c list, (download c list).remote = none)
    (hdeliver : ∀ (s : RemoteApp) (c d : Nat) (event : DataTaskEvent) (list : List α),
      download c list ∈ (s.deliver json d event).lists → c = d ∧ s.HasTable d ∧
        .next list ∈ ((@ServiceDownloadData.downloading α _ json url).step (s.request d) event).2)
    {es : List RemoteEvent} {c : Nat} {list : List α}
    (h : download c list ∈ bookingEvents json email password es) :
    Downloaded json email password es c list := by
  induction es using List.reverseRecOn with
  | nil => simp [bookingEvents, Machine.passedOn] at h
  | append_singleton es e ih =>
    rw [bookingEvents, Machine.passedOn_snoc] at h
    rcases List.mem_append.mp h with hold | hnew
    · exact (ih hold).snoc e
    · obtain ⟨d, event, rfl, hlists⟩ := RemoteApp.passes_download hnew (hremote c list)
      obtain ⟨rfl, htable, hnext⟩ := hdeliver _ c d event list hlists
      exact (remoteBooking_requested json email password es).downloaded htable hnext

theorem downloaded_rooms {es : List RemoteEvent} {rooms : List RoomsJSON}
    (h : .requestRooms c rooms ∈ bookingEvents json email password es) :
    Downloaded json email password es c rooms := by
  refine downloaded_of_mem ServiceDownloadData.urlRooms (fun _ _ => rfl) (fun s c d event list hlists => ?_) h
  obtain ⟨htable, ⟨list', hlist, hnext⟩ | ⟨list', hlist, _⟩⟩ := RemoteApp.mem_deliver hlists
  · obtain ⟨rfl, rfl⟩ := BookingEvent.requestRooms.inj hlist
    exact ⟨rfl, htable, hnext⟩
  · simp at hlist

theorem downloaded_workplaces {es : List RemoteEvent} {workplaces : List WorkPlace}
    (h : .serviceWorkplace c workplaces ∈ bookingEvents json email password es) :
    Downloaded json email password es c workplaces := by
  refine downloaded_of_mem ServiceDownloadData.urlWorkplaces (fun _ _ => rfl) (fun s c d event list hlists => ?_) h
  obtain ⟨htable, ⟨list', hlist, _⟩ | ⟨list', hlist, hnext⟩⟩ := RemoteApp.mem_deliver hlists
  · simp at hlist
  · obtain ⟨rfl, rfl⟩ := BookingEvent.serviceWorkplace.inj hlist
    exact ⟨rfl, htable, hnext⟩

end

end Reservation
