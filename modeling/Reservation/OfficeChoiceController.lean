import Reservation.ServiceDownloadData

/-! The office screen. Its spinner and its table are bound to downloads of their
own: the list is requested twice, and the two tasks may come to different ends. -/

namespace Reservation

open LawfulDecodable

/-- As the storyboard has it, the spinner shows but does not move. -/
structure UIActivityIndicatorView where
  isAnimating : Bool := false
  isHidden : Bool := false
  deriving DecidableEq

def UIActivityIndicatorView.startAnimating (spinner : UIActivityIndicatorView) : UIActivityIndicatorView :=
  { spinner with isAnimating := true }

inductive OfficeEvent
  | spinnerTask (event : DataTaskEvent)
  | tableTask (event : DataTaskEvent)
  deriving DecidableEq

namespace OfficeEvent

def ofSpinner : OfficeEvent → Option DataTaskEvent
  | spinnerTask event => some event
  | tableTask _ => none

def ofTable : OfficeEvent → Option DataTaskEvent
  | spinnerTask _ => none
  | tableTask event => some event

end OfficeEvent

structure OfficeChoiceController where
  spinner : UIActivityIndicatorView := {}
  officeChoice : List Office := []
  spinnerRequest : DataRequest := {}
  tableRequest : DataRequest := {}
  deriving DecidableEq

/-- The closure that `bindTableView` subscribes to the first of the downloads. -/
def UIActivityIndicatorView.on (spinner : UIActivityIndicatorView)
    (office : Rx.Event DownloadError (List Office)) : UIActivityIndicatorView :=
  if office.isCompleted then { spinner.startAnimating with isHidden := false }
  else { spinner with isHidden := true }

/-- The rows after an event of the second; an error is reported and leaves them. -/
def reload (officeChoice : List Office) : Rx.Event DownloadError (List Office) → List Office
  | .next offices => offices
  | _ => officeChoice

def bindingErrors (events : List (Rx.Event DownloadError (List Office))) : List DownloadError :=
  events.filterMap fun
    | .error error => some error
    | _ => none

namespace OfficeChoiceController

def step (json : JSONSerialization) (vc : OfficeChoiceController) :
    OfficeEvent → OfficeChoiceController × List DownloadError
  | .spinnerTask event =>
    let next := (ServiceDownloadData.requestOffice json).step vc.spinnerRequest event
    ({ vc with spinnerRequest := next.1, spinner := next.2.foldl UIActivityIndicatorView.on vc.spinner }, [])
  | .tableTask event =>
    let next := (ServiceDownloadData.requestOffice json).step vc.tableRequest event
    ({ vc with tableRequest := next.1, officeChoice := next.2.foldl reload vc.officeChoice },
      bindingErrors next.2)

/-- The text of the cell that the closure of the table configures for a row. -/
def cityLabel (vc : OfficeChoiceController) (row : Nat) : Option String :=
  vc.officeChoice[row]?.map fun office => toString office.number.toInt ++ " " ++ office.name

end OfficeChoiceController

def officeScreen (json : JSONSerialization) : Machine OfficeChoiceController OfficeEvent DownloadError :=
  ⟨OfficeChoiceController.step json⟩

/-- The bytes that came are a document that carries these offices. -/
def Documented (json : JSONSerialization) (events : List DataTaskEvent) (offices : List Office) : Prop :=
  ∃ data j, receivedData events = some data ∧ json.jsonObject data = some j ∧ j.Carries (encode offices)

/-- The task is complete, and no list of offices came of it. -/
def Failed (json : JSONSerialization) (events : List DataTaskEvent) : Prop :=
  (∃ data, receivedData events = some data) ∧ ∀ offices, ¬ Documented json events offices

/-- Each half of the screen has seen the events of its own task only. -/
structure OfficeChoiceController.Saw (json : JSONSerialization) (es : List OfficeEvent)
    (vc : OfficeChoiceController) : Prop where
  spinnerRequest : vc.spinnerRequest =
    (ServiceDownloadData.requestOffice json).run {} (es.filterMap OfficeEvent.ofSpinner)
  spinner : vc.spinner = ((ServiceDownloadData.requestOffice json).outputs {}
    (es.filterMap OfficeEvent.ofSpinner)).foldl UIActivityIndicatorView.on {}
  tableRequest : vc.tableRequest =
    (ServiceDownloadData.requestOffice json).run {} (es.filterMap OfficeEvent.ofTable)
  officeChoice : vc.officeChoice = ((ServiceDownloadData.requestOffice json).outputs {}
    (es.filterMap OfficeEvent.ofTable)).foldl reload []

theorem officeScreen_saw (json : JSONSerialization) (es : List OfficeEvent) :
    ((officeScreen json).run {} es).Saw json es := by
  refine (officeScreen json).run_invariant (P := OfficeChoiceController.Saw json) ⟨rfl, rfl, rfl, rfl⟩
    (fun past e h => ?_) es
  generalize (officeScreen json).run {} past = vc at h ⊢
  cases e with
  | spinnerTask event =>
    have hown : (past ++ [OfficeEvent.spinnerTask event]).filterMap OfficeEvent.ofSpinner =
        past.filterMap OfficeEvent.ofSpinner ++ [event] := List.filterMap_append
    have hother : (past ++ [OfficeEvent.spinnerTask event]).filterMap OfficeEvent.ofTable =
        past.filterMap OfficeEvent.ofTable := List.filterMap_append.trans (List.append_nil _)
    refine ⟨?_, ?_, hother ▸ h.tableRequest, hother ▸ h.officeChoice⟩
    · rw [hown, Machine.run_snoc, ← h.spinnerRequest]
      rfl
    · rw [hown, Machine.outputs_snoc, Machine.emit, List.foldl_append, ← h.spinnerRequest, ← h.spinner]
      rfl
  | tableTask event =>
    have hown : (past ++ [OfficeEvent.tableTask event]).filterMap OfficeEvent.ofTable =
        past.filterMap OfficeEvent.ofTable ++ [event] := List.filterMap_append
    have hother : (past ++ [OfficeEvent.tableTask event]).filterMap OfficeEvent.ofSpinner =
        past.filterMap OfficeEvent.ofSpinner := List.filterMap_append.trans (List.append_nil _)
    refine ⟨hother ▸ h.spinnerRequest, hother ▸ h.spinner, ?_, ?_⟩
    · rw [hown, Machine.run_snoc, ← h.tableRequest]
      rfl
    · rw [hown, Machine.outputs_snoc, Machine.emit, List.foldl_append, ← h.tableRequest, ← h.officeChoice]
      rfl

theorem officeScreen_errors (json : JSONSerialization) (es : List OfficeEvent) :
    (officeScreen json).outputs {} es =
      bindingErrors ((ServiceDownloadData.requestOffice json).outputs {} (es.filterMap OfficeEvent.ofTable)) := by
  induction es using List.reverseRecOn with
  | nil => rfl
  | append_singleton es e ih =>
    have hsaw := officeScreen_saw json es
    rw [Machine.outputs_snoc, ih, List.filterMap_append]
    cases e with
    | spinnerTask event =>
      have hother : [OfficeEvent.spinnerTask event].filterMap OfficeEvent.ofTable = [] := rfl
      rw [hother, List.append_nil]
      exact List.append_nil _
    | tableTask event =>
      have hown : [OfficeEvent.tableTask event].filterMap OfficeEvent.ofTable = [event] := rfl
      rw [hown, Machine.outputs_snoc, bindingErrors, bindingErrors, List.filterMap_append, Machine.emit,
        Machine.emit, ← hsaw.tableRequest]
      rfl

/-- The three ends of a download. -/
theorem requestOffice_ends (json : JSONSerialization) (events : List DataTaskEvent) :
    (receivedData events = none ∧ (ServiceDownloadData.requestOffice json).outputs {} events = []) ∨
      (∃ offices, Documented json events offices ∧
        (ServiceDownloadData.requestOffice json).outputs {} events = [.next offices, .completed]) ∨
      (Failed json events ∧ ∃ error,
        (ServiceDownloadData.requestOffice json).outputs {} events = [.error error]) := by
  have hexactly : DownloadsExactly json (ServiceDownloadData.requestOffice json) :=
    ServiceDownloadData.downloading_exactly json _
  cases hdata : receivedData events with
  | none => exact .inl ⟨rfl, (hexactly.pending events).mpr hdata⟩
  | some data =>
    by_cases hdocument : ∃ offices, Documented json events offices
    · obtain ⟨offices, hoffices⟩ := hdocument
      exact .inr (.inl ⟨offices, hoffices, (hexactly.succeeds events offices).mpr hoffices⟩)
    · have hnone : ∀ offices, ¬ Documented json events offices := fun offices h => hdocument ⟨offices, h⟩
      refine .inr (.inr ⟨⟨⟨data, hdata⟩, hnone⟩, .parsingError .couldNotParse, ?_⟩)
      refine (hexactly.fails events _).mpr ⟨rfl, data, hdata, fun j offices hj hcarries => ?_⟩
      exact hnone offices ⟨data, j, hdata, hj, hcarries⟩

/-- What comes of a task that is complete does not change. -/
theorem Documented.append {json : JSONSerialization} {events : List DataTaskEvent} {offices : List Office}
    (h : Documented json events offices) (more : List DataTaskEvent) :
    Documented json (events ++ more) offices := by
  obtain ⟨data, j, hdata, hj, hcarries⟩ := h
  exact ⟨data, j, receivedData_append hdata more, hj, hcarries⟩

theorem Documented.unique {json : JSONSerialization} {events : List DataTaskEvent} {offices offices' : List Office}
    (h : Documented json events offices) (h' : Documented json events offices') : offices = offices' := by
  obtain ⟨data, j, hdata, hj, hcarries⟩ := h
  obtain ⟨data', j', hdata', hj', hcarries'⟩ := h'
  obtain rfl := Option.some.inj (hdata.symm.trans hdata')
  obtain rfl := Option.some.inj (hj.symm.trans hj')
  exact carries_unique hcarries hcarries'

/-- What is on the screen after these events of the two tasks. -/
structure OfficeChoiceController.Shows (json : JSONSerialization) (spinner table : List DataTaskEvent)
    (vc : OfficeChoiceController) : Prop where
  moves : vc.spinner.isAnimating = true ↔ ∃ offices, Documented json spinner offices
  disappears : vc.spinner.isHidden = true ↔ Failed json spinner
  labels : ∀ (row : Nat) (text : String), vc.cityLabel row = some text ↔ ∃ offices office,
    Documented json table offices ∧ offices[row]? = some office ∧
      text = toString office.number.toInt ++ " " ++ office.name

namespace OfficeChoiceController

variable {json : JSONSerialization} {es : List OfficeEvent} {vc : OfficeChoiceController}

theorem Saw.spinner_ends (h : vc.Saw json es) :
    (receivedData (es.filterMap OfficeEvent.ofSpinner) = none ∧ vc.spinner = ⟨false, false⟩) ∨
      (∃ offices, Documented json (es.filterMap OfficeEvent.ofSpinner) offices ∧ vc.spinner = ⟨true, false⟩) ∨
      (Failed json (es.filterMap OfficeEvent.ofSpinner) ∧ vc.spinner = ⟨false, true⟩) := by
  rw [h.spinner]
  rcases requestOffice_ends json (es.filterMap OfficeEvent.ofSpinner) with
    ⟨hnone, houts⟩ | ⟨offices, hoffices, houts⟩ | ⟨hfailed, error, houts⟩
  · rw [houts]
    exact .inl ⟨hnone, rfl⟩
  · rw [houts]
    exact .inr (.inl ⟨offices, hoffices, rfl⟩)
  · rw [houts]
    exact .inr (.inr ⟨hfailed, rfl⟩)

theorem Saw.isAnimating_iff (h : vc.Saw json es) : vc.spinner.isAnimating = true ↔
    ∃ offices, Documented json (es.filterMap OfficeEvent.ofSpinner) offices := by
  rcases h.spinner_ends with ⟨hnone, hspinner⟩ | ⟨offices, hoffices, hspinner⟩ | ⟨hfailed, hspinner⟩
  · rw [hspinner]
    refine iff_of_false (by simp) ?_
    rintro ⟨_, data, _, hdata, _⟩
    simp [hnone] at hdata
  · rw [hspinner]
    exact iff_of_true rfl ⟨offices, hoffices⟩
  · rw [hspinner]
    exact iff_of_false (by simp) fun ⟨offices, h⟩ => hfailed.2 offices h

theorem Saw.rows (h : vc.Saw json es) :
    Documented json (es.filterMap OfficeEvent.ofTable) vc.officeChoice ∨
      vc.officeChoice = [] ∧ ∀ offices, ¬ Documented json (es.filterMap OfficeEvent.ofTable) offices := by
  rw [h.officeChoice]
  rcases requestOffice_ends json (es.filterMap OfficeEvent.ofTable) with
    ⟨hnone, houts⟩ | ⟨offices, hoffices, houts⟩ | ⟨hfailed, error, houts⟩
  · rw [houts]
    refine .inr ⟨rfl, ?_⟩
    rintro offices ⟨data, _, hdata, _⟩
    simp [hnone] at hdata
  · rw [houts]
    exact .inl hoffices
  · rw [houts]
    exact .inr ⟨rfl, hfailed.2⟩

end OfficeChoiceController

/-- Over every interleaving of the two tasks the spinner moves once its own
download has succeeded, and never stops, it disappears when that download has
failed, and the rows and the errors are those of the other download. That a
binding error is reported and nothing more is how a release build takes it. -/
theorem office_screen_shows (json : JSONSerialization) (es : List OfficeEvent) :
    ((officeScreen json).run {} es).Shows json (es.filterMap OfficeEvent.ofSpinner)
        (es.filterMap OfficeEvent.ofTable) ∧
      (∀ error, error ∈ (officeScreen json).outputs {} es ↔
        error = .parsingError .couldNotParse ∧ Failed json (es.filterMap OfficeEvent.ofTable)) ∧
      ∀ more, ((officeScreen json).run {} es).spinner.isAnimating = true →
        ((officeScreen json).run {} (es ++ more)).spinner.isAnimating = true := by
  have hsaw := officeScreen_saw json es
  refine ⟨⟨hsaw.isAnimating_iff, ?_, fun row text => ?_⟩, fun error => ?_, fun more hmoves => ?_⟩
  · rcases hsaw.spinner_ends with ⟨hnone, hspinner⟩ | ⟨offices, hoffices, hspinner⟩ | ⟨hfailed, hspinner⟩
    · rw [hspinner]
      refine iff_of_false (by simp) ?_
      rintro ⟨⟨data, hdata⟩, _⟩
      simp [hnone] at hdata
    · rw [hspinner]
      exact iff_of_false (by simp) fun hfailed => hfailed.2 offices hoffices
    · rw [hspinner]
      exact iff_of_true rfl hfailed
  · rw [OfficeChoiceController.cityLabel, Option.map_eq_some_iff]
    constructor
    · rintro ⟨office, hoffice, rfl⟩
      rcases hsaw.rows with hdocument | ⟨hempty, _⟩
      · exact ⟨_, office, hdocument, hoffice, rfl⟩
      · simp [hempty] at hoffice
    · rintro ⟨offices, office, hdocument, hoffice, rfl⟩
      have hrows := hsaw.rows.resolve_right fun h => h.2 offices hdocument
      obtain rfl := hrows.unique hdocument
      exact ⟨office, hoffice, rfl⟩
  · rw [officeScreen_errors]
    have hexactly : DownloadsExactly json (ServiceDownloadData.requestOffice json) :=
      ServiceDownloadData.downloading_exactly json _
    rcases requestOffice_ends json (es.filterMap OfficeEvent.ofTable) with
      ⟨hnone, houts⟩ | ⟨offices, hoffices, houts⟩ | ⟨hfailed, found, houts⟩
    · rw [houts]
      refine iff_of_false (by simp [bindingErrors]) ?_
      rintro ⟨_, ⟨data, hdata⟩, _⟩
      simp [hnone] at hdata
    · rw [houts]
      exact iff_of_false (by simp [bindingErrors]) fun ⟨_, hfailed⟩ => hfailed.2 offices hoffices
    · obtain ⟨rfl, _⟩ := (hexactly.fails _ found).mp houts
      rw [houts]
      simp [bindingErrors, hfailed]
  · obtain ⟨offices, hoffices⟩ := hsaw.isAnimating_iff.mp hmoves
    rw [(officeScreen_saw json (es ++ more)).isAnimating_iff, List.filterMap_append]
    exact ⟨offices, hoffices.append _⟩

end Reservation
