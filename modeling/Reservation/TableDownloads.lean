import Reservation.Lockout

/-! The way to the booking form when every table has one download, which may fail,
and an office is chosen by a row of its table. A list is in its table before any
cell shows a record of it. -/

namespace Reservation

/-- What a download brings to the table it is made for. -/
inductive Download
  | requestOffice (offices : List Office)
  | requestRooms (rooms : List RoomsJSON)
  | serviceWorkplace (workplaces : List WorkPlace)
  deriving DecidableEq

def Download.screen : Download → Screen
  | requestOffice _ => .officeChoiceController
  | requestRooms _ => .roomsViewController
  | serviceWorkplace _ => .workPlaceViewController

def Download.passes (controller : Nat) : Download → List BookingEvent
  | requestOffice _ => []
  | requestRooms rooms => [.requestRooms controller rooms]
  | serviceWorkplace workplaces => [.serviceWorkplace controller workplaces]

def Download.offices : Download → List Office
  | requestOffice offices => offices
  | _ => []

/-- Neither the list of a download nor the tap on a row of one. -/
def BookingEvent.isScreen : BookingEvent → Bool
  | didSelectRow => false
  | event => !event.isDownload

inductive TableEvent
  | screen (event : BookingEvent)
  | didSelectRow (row : Nat)
  | downloaded (controller : Nat) (download : Download)
  | failed (controller : Nat)
  deriving DecidableEq

/-- `ended` are the controllers whose download has succeeded or failed; for one
without a table it says nothing. -/
structure TableApp where
  app : BookingApp
  officeChoice : Nat → List Office := fun _ => []
  ended : Nat → Bool := fun _ => false

namespace TableApp

def launch (email password : Text) : TableApp := { app := .launch email password }

/-- The controller waits for a download of this kind. -/
def Awaits (s : TableApp) (controller : Nat) (download : Download) : Prop :=
  s.ended controller = false ∧ s.app.controllers[controller]?.map ViewController.screen = some download.screen

instance (s : TableApp) (controller : Nat) (download : Download) : Decidable (s.Awaits controller download) :=
  inferInstanceAs (Decidable (_ ∧ _))

def passes (s : TableApp) : TableEvent → List BookingEvent
  | .screen event => if event.isScreen then [event] else []
  | .didSelectRow row =>
    match s.app.topViewController with
    | some (c, _) => if row < (s.officeChoice c).length then [.didSelectRow] else []
    | none => []
  | .downloaded controller download => if s.Awaits controller download then download.passes controller else []
  | .failed _ => []

def take (s : TableApp) : TableEvent → TableApp
  | .downloaded controller download =>
    if s.Awaits controller download then
      { s with
        officeChoice := Function.update s.officeChoice controller download.offices
        ended := Function.update s.ended controller true }
    else s
  | .failed controller =>
    if s.app.controllers[controller]?.isSome then { s with ended := Function.update s.ended controller true }
    else s
  | _ => s

def step (s : TableApp) (e : TableEvent) : TableApp × List BookingEffect :=
  ({ s.take e with app := booking.run s.app (s.passes e) }, booking.outputs s.app (s.passes e))

end TableApp

def tables : Machine TableApp TableEvent BookingEffect := ⟨TableApp.step⟩

theorem BookingEvent.isDownload_of_isScreen {e : BookingEvent} (h : e.isScreen = true) :
    e.isDownload = false := by
  cases e with
  | didSelectRow => rfl
  | _ => simpa [isScreen] using h

/-- The history of the screens behind a history with the downloads. -/
def screenEvents (email password : Text) (es : List TableEvent) : List BookingEvent :=
  tables.passedOn TableApp.passes (.launch email password) es

theorem tables_app (email password : Text) (es : List TableEvent) :
    (tables.run (.launch email password) es).app =
      booking.run (.launch email password) (screenEvents email password es) :=
  Machine.run_passedOn (π := TableApp.app) (fun _ _ => rfl) _ es

theorem tables_outputs (email password : Text) (es : List TableEvent) :
    tables.outputs (.launch email password) es =
      booking.outputs (.launch email password) (screenEvents email password es) := by
  have houtputs := Machine.outputs_passedOn (N := tables) (M := booking) (π := TableApp.app) (g := some)
    (fun _ _ => rfl) (fun _ _ => List.filterMap_some) (.launch email password) es
  rwa [List.filterMap_some] at houtputs

/-- The list of the table has a record with a details button. -/
def ViewController.HasAvailable (vc : ViewController) : Prop :=
  match vc.screen with
  | .roomsViewController => ∃ room ∈ vc.rooms, room.isAvailable = true
  | .workPlaceViewController => ∃ workplace ∈ vc.workplaces, workplace.isAvailable = true
  | _ => False

/-- A controller has no list before its download has ended, and a cell with a
button and a closure was configured from an available record. -/
structure ViewController.Filled (vc : ViewController) (ended : Bool) : Prop where
  pending : ended = false → vc.rooms = [] ∧ vc.workplaces = []
  cells : ∀ cell ∈ vc.cells, cell.buttonCallback ≠ none → cell.isHidden = false → vc.HasAvailable

structure BookingApp.Sound (app : BookingApp) (ended : Nat → Bool) : Prop where
  fresh : ∀ (c : Nat), app.controllers[c]? = none → ended c = false
  filled : ∀ (c : Nat) (vc : ViewController), app.controllers[c]? = some vc → vc.Filled (ended c)

theorem ViewController.Filled.new (screen : Screen) (ended : Bool) :
    ({ screen := screen } : ViewController).Filled ended :=
  ⟨fun _ => ⟨rfl, rfl⟩, by simp⟩

theorem ViewController.HasAvailable.congr {vc vc' : ViewController} (hscreen : vc'.screen = vc.screen)
    (hrooms : vc'.rooms = vc.rooms) (hworkplaces : vc'.workplaces = vc.workplaces) (h : vc.HasAvailable) :
    vc'.HasAvailable := by
  rw [HasAvailable] at h ⊢
  rwa [hscreen, hrooms, hworkplaces]

/-- The list of a controller that waits for its download has no available record. -/
theorem ViewController.Filled.not_hasAvailable {vc : ViewController} (h : vc.Filled false) :
    ¬ vc.HasAvailable := by
  obtain ⟨hrooms, hworkplaces⟩ := h.pending rfl
  rw [HasAvailable, hrooms, hworkplaces]
  cases vc.screen <;> simp

/-- A cell is configured from a record of the list, which is available if the
button shows. -/
theorem ViewController.hasAvailable_of_bind {vc : ViewController} {c row : Nat} {old new : DetailsCell}
    {isAvailable : Bool} (hbind : vc.bindViewModel c row old = some (new, isAvailable))
    (hvisible : new.isHidden = false) : vc.HasAvailable := by
  have havailable : isAvailable = true := by
    rw [(ViewController.bindViewModel_eq hbind).1] at hvisible
    simpa using hvisible
  subst havailable
  rw [bindViewModel] at hbind
  cases hscreen : vc.screen with
  | roomsViewController =>
    simp only [hscreen, Option.map_eq_some_iff, Prod.mk.injEq] at hbind
    obtain ⟨room, hroom, _, hfree⟩ := hbind
    rw [HasAvailable, hscreen]
    exact ⟨room, List.mem_of_getElem? hroom, hfree⟩
  | workPlaceViewController =>
    simp only [hscreen, Option.map_eq_some_iff, Prod.mk.injEq] at hbind
    obtain ⟨workplace, hworkplace, _, hfree⟩ := hbind
    rw [HasAvailable, hscreen]
    exact ⟨workplace, List.mem_of_getElem? hworkplace, hfree⟩
  | _ => simp [hscreen] at hbind

namespace BookingApp.Sound

variable {app : BookingApp} {ended : Nat → Bool}

theorem congr (h : app.Sound ended) {app' : BookingApp} (hcontrollers : app'.controllers = app.controllers) :
    app'.Sound ended := by
  constructor
  · rw [hcontrollers]
    exact h.fresh
  · rw [hcontrollers]
    exact h.filled

theorem push (h : app.Sound ended) (screen : Screen) : (app.pushViewController screen).1.Sound ended := by
  refine ⟨fun c hnone => h.fresh c ?_, fun c vc hvc => ?_⟩
  · rw [pushViewController, List.getElem?_eq_none_iff, List.length_append] at hnone
    exact List.getElem?_eq_none_iff.mpr (Nat.le_of_add_right_le hnone)
  · rw [pushViewController, List.getElem?_append] at hvc
    split at hvc
    · exact h.filled c vc hvc
    · have hnew : vc = { screen := screen } := by simpa using List.mem_of_getElem? hvc
      rw [hnew]
      exact .new screen _

theorem set (h : app.Sound ended) {d : Nat} {wc wc' : ViewController} (hwc : app.controllers[d]? = some wc)
    (hfilled : wc'.Filled (ended d)) :
    ({ app with controllers := app.controllers.set d wc' } : BookingApp).Sound ended := by
  refine ⟨fun c hnone => h.fresh c ?_, fun c vc hvc => ?_⟩
  · rw [List.getElem?_eq_none_iff, List.length_set] at hnone
    exact List.getElem?_eq_none_iff.mpr hnone
  · by_cases hd : c = d
    · subst hd
      rw [List.getElem?_set_self', hwc] at hvc
      obtain rfl : wc' = vc := Option.some.inj hvc
      exact hfilled
    · rw [List.getElem?_set_ne (Ne.symm hd)] at hvc
      exact h.filled c vc hvc

/-- An event of the screens brings no list to a table. -/
theorem step (h : app.Sound ended) {e : BookingEvent} (he : e.isDownload = false) :
    (app.step e).1.Sound ended := by
  have hstep := app.step_cases e
  generalize app.step e = next at hstep ⊢
  cases hstep with
  | idle => exact h
  | login _ _ _ => exact h.congr rfl
  | @pushView _ login _ _ _ =>
    have hlogin : ({ app with login := login } : BookingApp).Sound ended := h.congr rfl
    exact hlogin.push _
  | didSelectRow _ _ => exact h.push _
  | @extend _ d wc wc' hwc hextends hlists =>
    have hfilled := h.filled d wc hwc
    obtain ⟨hrooms, hworkplaces⟩ := hlists he
    refine h.set hwc ⟨?_, fun cell hcell hcallback hvisible => ?_⟩
    · rw [hrooms, hworkplaces]
      exact hfilled.pending
    · have hold : cell ∈ wc.cells := by
        rcases hextends.cells with hcells | hcells
        · exact hcells ▸ hcell
        · rw [hcells] at hcell
          refine (List.mem_append.mp hcell).resolve_right fun hnew => hcallback ?_
          rw [List.mem_singleton.mp hnew]
      exact (hfilled.cells cell hold hcallback hvisible).congr hextends.screen hrooms hworkplaces
  | @configure d k row wc old new isAvailable hwc hbind =>
    have hfilled := h.filled d wc hwc
    refine h.set hwc ⟨hfilled.pending, fun cell hcell hcallback hvisible => ?_⟩
    have havailable : wc.HasAvailable := by
      rcases List.mem_or_eq_of_mem_set hcell with hold | rfl
      · exact hfilled.cells cell hold hcallback hvisible
      · exact ViewController.hasAvailable_of_bind hbind hvisible
    exact havailable.congr rfl rfl rfl
  | touchDetails _ _ _ _ => exact h.push _
  | back _ => exact h.congr rfl

theorem close (h : app.Sound ended) {c : Nat} {vc : ViewController} (hvc : app.controllers[c]? = some vc) :
    app.Sound (Function.update ended c true) := by
  refine ⟨fun d hnone => ?_, fun d wc hwc => ?_⟩
  · have hd : d ≠ c := by
      rintro rfl
      rw [hvc] at hnone
      cases hnone
    rw [Function.update_of_ne hd]
    exact h.fresh d hnone
  · have hfilled := h.filled d wc hwc
    by_cases hd : d = c
    · subst hd
      rw [Function.update_self]
      exact ⟨nofun, hfilled.cells⟩
    · rwa [Function.update_of_ne hd]

/-- The list of a table comes before any cell with a button and a closure. -/
theorem modify (h : app.Sound ended) {c : Nat} {vc : ViewController} (hvc : app.controllers[c]? = some vc)
    (hended : ended c = false) {f : ViewController → ViewController} (hcells : (f vc).cells = vc.cells) :
    (app.modify c f).1.Sound (Function.update ended c true) := by
  rw [BookingApp.modify, hvc]
  refine (h.close hvc).set hvc ⟨fun hpending => ?_, fun cell hcell hcallback hvisible => ?_⟩
  · rw [Function.update_self] at hpending
    cases hpending
  · have hfilled := h.filled c vc hvc
    rw [hended] at hfilled
    rw [hcells] at hcell
    exact absurd (hfilled.cells cell hcell hcallback hvisible) hfilled.not_hasAvailable

theorem downloaded (h : app.Sound ended) {c : Nat} {vc : ViewController} (hvc : app.controllers[c]? = some vc)
    (hended : ended c = false) (download : Download) :
    (booking.run app (download.passes c)).Sound (Function.update ended c true) := by
  cases download with
  | requestOffice offices => exact h.close hvc
  | requestRooms rooms =>
    refine h.modify (f := ViewController.requestRooms rooms) hvc hended ?_
    rw [ViewController.requestRooms]
    split <;> rfl
  | serviceWorkplace workplaces =>
    refine h.modify (f := ViewController.serviceWorkplace workplaces) hvc hended ?_
    rw [ViewController.serviceWorkplace]
    split <;> rfl

end BookingApp.Sound

namespace TableApp

def Sound (s : TableApp) : Prop := s.app.Sound s.ended

theorem step_sound {s : TableApp} (h : s.Sound) (e : TableEvent) : (s.step e).1.Sound := by
  cases e with
  | screen event =>
    by_cases hscreen : event.isScreen = true
    · simp only [step, passes, if_pos hscreen]
      exact BookingApp.Sound.step h (BookingEvent.isDownload_of_isScreen hscreen)
    · simp only [step, passes, if_neg hscreen]
      exact h
  | didSelectRow row =>
    have hselect : (s.app.step .didSelectRow).1.Sound s.ended := BookingApp.Sound.step h rfl
    rw [step, passes]
    split
    · split
      · exact hselect
      · exact h
    · exact h
  | downloaded c download =>
    by_cases hawaits : s.Awaits c download
    · obtain ⟨vc, hvc, _⟩ := Option.map_eq_some_iff.mp hawaits.2
      have hsound := BookingApp.Sound.downloaded h hvc hawaits.1 download
      simpa only [step, Sound, take, passes, if_pos hawaits] using hsound
    · simp only [step, Sound, take, passes, if_neg hawaits]
      exact h
  | failed c =>
    rw [Sound, step, take]
    split
    · next hsome =>
      obtain ⟨vc, hvc⟩ := Option.isSome_iff_exists.mp hsome
      exact BookingApp.Sound.close h hvc
    · exact h

end TableApp

theorem tables_sound (email password : Text) (es : List TableEvent) :
    (tables.run (.launch email password) es).Sound := by
  refine tables.run_invariant (P := fun _ s => s.Sound) ?_ (fun _ e h => TableApp.step_sound h e) es
  refine ⟨fun _ _ => rfl, fun c vc hvc => ?_⟩
  have hlaunch : vc = { screen := .authorizationViewController } := by
    simpa [TableApp.launch, BookingApp.launch] using List.mem_of_getElem? hvc
  rw [hlaunch]
  exact .new _ _

end Reservation
