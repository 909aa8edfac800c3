import Reservation.RemoteForm

/-! What a cell of the two tables shows. Its text, its button and the closure
behind this come from one record of a list downloaded for its own table. -/

namespace Reservation

open LawfulDecodable

/-- A property of a controller that a push begins with, and that a download, a new
cell and a `configure` keep, holds of every controller there is. -/
theorem booking_each {email password : Text} {P : List BookingEvent → Nat → ViewController → Prop}
    (hnew : ∀ (past : List BookingEvent) (c : Nat) (screen : Screen), P past c { screen := screen })
    (hlater : ∀ (past : List BookingEvent) (e : BookingEvent) (c : Nat) (vc : ViewController),
      P past c vc → P (past ++ [e]) c vc)
    (hextend : ∀ (past : List BookingEvent) (c : Nat) (vc vc' : ViewController),
      vc.Extends vc' → P past c vc → P past c vc')
    (hconfigure : ∀ (past : List BookingEvent) (c k row : Nat) (vc : ViewController) (old new : DetailsCell)
      (isAvailable : Bool), (booking.run (.launch email password) past).controllers[c]? = some vc →
        vc.bindViewModel c row old = some (new, isAvailable) → P past c vc →
          P past c { vc with cells := vc.cells.set k new })
    (es : List BookingEvent) :
    ∀ (c : Nat) (vc : ViewController),
      (booking.run (.launch email password) es).controllers[c]? = some vc → P es c vc := by
  induction es using List.reverseRecOn with
  | nil =>
    intro c vc hvc
    have hlaunch : vc = { screen := .authorizationViewController } := by
      simpa [BookingApp.launch] using List.mem_of_getElem? hvc
    rw [hlaunch]
    exact hnew [] c _
  | append_singleton es e ih =>
    intro c vc hvc
    have hpush {screen : Screen} (hvc : ((booking.run (.launch email password) es).controllers ++
        [({ screen := screen } : ViewController)])[c]? = some vc) : P (es ++ [e]) c vc := by
      rw [List.getElem?_append] at hvc
      split at hvc
      · exact hlater es e c vc (ih c vc hvc)
      · have hscreen : vc = { screen := screen } := by simpa using List.mem_of_getElem? hvc
        rw [hscreen]
        exact hnew _ c screen
    have hset {d : Nat} {wc wc' : ViewController}
        (hwc : (booking.run (.launch email password) es).controllers[d]? = some wc) (hkept : P es d wc')
        (hvc : ((booking.run (.launch email password) es).controllers.set d wc')[c]? = some vc) :
        P (es ++ [e]) c vc := by
      by_cases hd : c = d
      · subst hd
        rw [List.getElem?_set_self', hwc] at hvc
        obtain rfl : wc' = vc := Option.some.inj hvc
        exact hlater es e c wc' hkept
      · rw [List.getElem?_set_ne (Ne.symm hd)] at hvc
        exact hlater es e c vc (ih c vc hvc)
    have hstep := (booking.run (.launch email password) es).step_cases e
    rw [Machine.run_snoc] at hvc
    change ((booking.run (.launch email password) es).step e).1.controllers[c]? = some vc at hvc
    generalize (booking.run (.launch email password) es).step e = next at hstep hvc
    cases hstep with
    | idle => exact hlater es e c vc (ih c vc hvc)
    | login _ _ _ => exact hlater es _ c vc (ih c vc hvc)
    | pushView _ _ _ => exact hpush hvc
    | didSelectRow _ _ => exact hpush hvc
    | @extend _ d wc wc' hwc hextends => exact hset hwc (hextend es d wc wc' hextends (ih d wc hwc)) hvc
    | @configure d k row wc old new isAvailable hwc hbind =>
      exact hset hwc (hconfigure es d k row wc old new isAvailable hwc hbind (ih d wc hwc)) hvc
    | touchDetails _ _ _ _ => exact hpush hvc
    | back _ => exact hlater es _ c vc (ih c vc hvc)

/-- The cell is new, or shows one record of a list downloaded for its controller:
its text, its button, hidden unless the record is available, and the push. -/
inductive Shown (rooms : List RoomsJSON → Prop) (workplaces : List WorkPlace → Prop) (c : Nat) :
    Screen → DetailsCell → Prop
  | new {screen : Screen} {cell : DetailsCell} (htext : cell.text = none) (hhidden : cell.isHidden = false)
      (hcallback : cell.buttonCallback = none) : Shown rooms workplaces c screen cell
  | room {list : List RoomsJSON} {room : RoomsJSON} {cell : DetailsCell} (hlist : rooms list)
      (hroom : room ∈ list) (htext : cell.text = some room.name)
      (hhidden : cell.isHidden = true ↔ room.isAvailable = false)
      (hcallback : cell.buttonCallback = some (.pushRooms c)) :
      Shown rooms workplaces c .roomsViewController cell
  | workplace {list : List WorkPlace} {workplace : WorkPlace} {cell : DetailsCell} (hlist : workplaces list)
      (hworkplace : workplace ∈ list) (htext : cell.text = some (workplace.name ++ " " ++ workplace.number))
      (hhidden : cell.isHidden = true ↔ workplace.isAvailable = false)
      (hcallback : cell.buttonCallback = some (.pushWorkplace c)) :
      Shown rooms workplaces c .workPlaceViewController cell

theorem Shown.imp {rooms rooms' : List RoomsJSON → Prop} {workplaces workplaces' : List WorkPlace → Prop}
    {c : Nat} {screen : Screen} {cell : DetailsCell} (hrooms : ∀ list, rooms list → rooms' list)
    (hworkplaces : ∀ list, workplaces list → workplaces' list) (h : Shown rooms workplaces c screen cell) :
    Shown rooms' workplaces' c screen cell := by
  cases h with
  | new htext hhidden hcallback => exact .new htext hhidden hcallback
  | room hlist hroom htext hhidden hcallback => exact .room (hrooms _ hlist) hroom htext hhidden hcallback
  | workplace hlist hworkplace htext hhidden hcallback =>
    exact .workplace (hworkplaces _ hlist) hworkplace htext hhidden hcallback

/-- Every cell of every table is new or shows a record of its own table. -/
def BookingApp.ShowsRecords (app : BookingApp) (rooms : Nat → List RoomsJSON → Prop)
    (workplaces : Nat → List WorkPlace → Prop) : Prop :=
  ∀ (c : Nat) (vc : ViewController), app.controllers[c]? = some vc →
    ∀ cell ∈ vc.cells, Shown (rooms c) (workplaces c) c vc.screen cell

/-- `configure` leaves nothing of what the cell was before. -/
theorem shown_configured {email password : Text} {past : List BookingEvent} {c row : Nat}
    {vc : ViewController} {old new : DetailsCell} {isAvailable : Bool}
    (hvc : (booking.run (.launch email password) past).controllers[c]? = some vc)
    (hbind : vc.bindViewModel c row old = some (new, isAvailable)) :
    Shown (fun list => .requestRooms c list ∈ past) (fun list => .serviceWorkplace c list ∈ past) c
      vc.screen new := by
  rw [ViewController.bindViewModel] at hbind
  cases hscreen : vc.screen with
  | roomsViewController =>
    simp only [hscreen, Option.map_eq_some_iff, Prod.mk.injEq] at hbind
    obtain ⟨room, hroom, rfl, _⟩ := hbind
    have hfilled := booking_filled listed_rooms email password past c vc hvc
    have hlist := hfilled.resolve_left fun hempty => by simp [hempty] at hroom
    refine .room hlist (List.mem_of_getElem? hroom) rfl ?_ rfl
    simp [RoomsTableViewCell.configure, DetailsCell.configure]
  | workPlaceViewController =>
    simp only [hscreen, Option.map_eq_some_iff, Prod.mk.injEq] at hbind
    obtain ⟨workplace, hworkplace, rfl, _⟩ := hbind
    have hfilled := booking_filled listed_workplaces email password past c vc hvc
    have hlist := hfilled.resolve_left fun hempty => by simp [hempty] at hworkplace
    refine .workplace hlist (List.mem_of_getElem? hworkplace) rfl ?_ rfl
    simp [WorkPlaceTableViewCell.configure, DetailsCell.configure]
  | _ => simp [hscreen] at hbind

theorem booking_shown (email password : Text) (es : List BookingEvent) :
    (booking.run (.launch email password) es).ShowsRecords (fun c list => .requestRooms c list ∈ es)
      fun c list => .serviceWorkplace c list ∈ es := by
  refine booking_each (P := fun es c vc => ∀ cell ∈ vc.cells, Shown (fun list => .requestRooms c list ∈ es)
    (fun list => .serviceWorkplace c list ∈ es) c vc.screen cell) ?_ ?_ ?_ ?_ es
  · intro past c screen cell hcell
    simp at hcell
  · intro past e c vc h cell hcell
    exact (h cell hcell).imp (fun _ hlist => List.mem_append_left _ hlist)
      fun _ hlist => List.mem_append_left _ hlist
  · intro past c vc vc' hextends h cell hcell
    rw [hextends.screen]
    rcases hextends.cells with hcells | hcells
    · exact h cell (hcells ▸ hcell)
    · rcases List.mem_append.mp (hcells ▸ hcell) with hold | hnew
      · exact h cell hold
      · rw [List.mem_singleton.mp hnew]
        exact .new rfl rfl rfl
  · intro past c k row vc old new isAvailable hvc hbind h cell hcell
    rcases List.mem_or_eq_of_mem_set hcell with hold | rfl
    · exact h cell hold
    · have hshown := shown_configured hvc hbind
      exact hshown

/-- Over every history of the screens and of the network, a cell that is not new
shows a record of a document downloaded for its table: its text is the record's,
its button is hidden exactly when the record is not available, and its closure
pushes from its own controller. -/
theorem cells_show_documents (json : JSONSerialization) (email password : Text) (es : List RemoteEvent) :
    ((remoteBooking json).run (.launch email password) es).app.ShowsRecords
      (Downloaded json email password es) (Downloaded json email password es) := by
  intro c vc hvc cell hcell
  rw [remoteBooking_app] at hvc
  exact (booking_shown email password _ c vc hvc cell hcell).imp (fun _ => downloaded_rooms)
    fun _ => downloaded_workplaces

end Reservation
