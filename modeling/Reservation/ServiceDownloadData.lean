import Reservation.Decoding
import Reservation.Machine

/-! The three downloads. A request keeps the bytes of its task until the task is
complete; what its observer is told depends on these bytes and on nothing else. -/

namespace Reservation

open Decodable LawfulDecodable

/-- What the session tells the delegate of a task. -/
inductive DataTaskEvent
  | didReceiveResponse (statusCode : Nat)
  | didReceive (data : Data)
  | didComplete (error : Option NSError)
  deriving DecidableEq

/-- A request of Alamofire with its `DataTaskDelegate`. The operations on the
queue of the delegate wait until the task is complete. -/
structure DataRequest where
  statusCode : Option Nat := none
  mutableData : Data := []
  error : Option NSError := none
  isSuspended : Bool := true
  deriving DecidableEq

structure DataResponse where
  data : Option Data
  error : Option DownloadError
  deriving DecidableEq

namespace DataRequest

/-- The error of the result, if there is one. -/
def serializeResponseJSON (json : JSONSerialization) (statusCode : Option Nat) (data : Option Data)
    (error : Option NSError) : Option DownloadError :=
  match error with
  | some error => some (.nsError error)
  | none =>
    if statusCode = some 204 ∨ statusCode = some 205 then none
    else
      match data with
      | none => some (.afError .inputDataNilOrZeroLength)
      | some [] => some (.afError .inputDataNilOrZeroLength)
      | some validData =>
        match json.allowFragments validData with
        | some _ => none
        | none => some (.afError .jsonSerializationFailed)

/-- No request of the app has a data stream, so the delegate has data, if only
an empty one. -/
def data (request : DataRequest) : Option Data := some request.mutableData

def responseJSON (json : JSONSerialization) (request : DataRequest) : DataResponse :=
  ⟨request.data, serializeResponseJSON json request.statusCode request.data request.error⟩

def receive (request : DataRequest) : DataTaskEvent → DataRequest
  | .didReceiveResponse statusCode => { request with statusCode := some statusCode }
  | .didReceive data => { request with mutableData := request.mutableData ++ data }
  | .didComplete error => { request with error := request.error.or error, isSuspended := false }

/-- The session has no delegate for a task that is complete. -/
def advance (request : DataRequest) (event : DataTaskEvent) : DataRequest :=
  if request.isSuspended then request.receive event else request

end DataRequest

/-- The closure that `requestData` passes to `responseJSON`. -/
def ServiceRequestData.requestData (response : DataResponse) : List (Rx.Event DownloadError Data) :=
  match response.data with
  | some data => [.next data, .completed]
  | none =>
    match response.error with
    | some error => [.error error]
    | none => []

namespace ServiceDownloadData

def urlOffices : String :=
  "https://firebasestorage.googleapis.com/v0/b/reservation-9598e.appspot.com/o/OfficeChoiceJSON.json" ++
    "?alt=media&token=fdc22193-03c8-40b5-a30f-db6caaeb3adf"

def urlRooms : String :=
  "https://firebasestorage.googleapis.com/v0/b/reservation-9598e.appspot.com/o/Rooms.json" ++
    "?alt=media&token=0376746b-c3d6-439b-a095-3c3ba85dc119"

def urlWorkplaces : String :=
  "https://firebasestorage.googleapis.com/v0/b/reservation-9598e.appspot.com/o/Workplace.json" ++
    "?alt=media&token=5b879bc2-e342-4496-a8bd-0993f63a4e2a"

variable {α : Type} [Decodable α]

def download (json : JSONSerialization) (response : DataResponse) : List (Rx.Event DownloadError (List α)) :=
  Rx.flatMap (ServiceParsingJSON.parseArray json) (Rx.create (ServiceRequestData.requestData response))

/-- A download with the task behind it. What the backend has at the `url` comes
with the events of the task. -/
def downloading (json : JSONSerialization) (_url : String) :
    Machine DataRequest DataTaskEvent (Rx.Event DownloadError (List α)) where
  step request event :=
    (request.advance event,
      match event with
      | .didComplete _ =>
        if request.isSuspended then download json ((request.advance event).responseJSON json) else []
      | _ => [])

def requestOffice (json : JSONSerialization) :
    Machine DataRequest DataTaskEvent (Rx.Event DownloadError (List Office)) := downloading json urlOffices

def requestRooms (json : JSONSerialization) :
    Machine DataRequest DataTaskEvent (Rx.Event DownloadError (List RoomsJSON)) := downloading json urlRooms

def serviceWorkplace (json : JSONSerialization) :
    Machine DataRequest DataTaskEvent (Rx.Event DownloadError (List WorkPlace)) := downloading json urlWorkplaces

end ServiceDownloadData

/-- All the bytes of a task, once it is complete. -/
def receivedData : List DataTaskEvent → Option Data
  | [] => none
  | .didReceiveResponse _ :: events => receivedData events
  | .didReceive data :: events => (receivedData events).map (data ++ ·)
  | .didComplete _ :: _ => some []

theorem receivedData_append {events : List DataTaskEvent} {data : Data}
    (h : receivedData events = some data) (more : List DataTaskEvent) :
    receivedData (events ++ more) = some data := by
  induction events generalizing data with
  | nil => simp [receivedData] at h
  | cons event events ih =>
    cases event with
    | didReceiveResponse statusCode => exact ih h
    | didReceive chunk =>
      obtain ⟨rest, hrest, rfl⟩ := Option.map_eq_some_iff.mp h
      rw [List.cons_append, receivedData, ih hrest, Option.map_some]
    | didComplete error => exact h

namespace DataRequest

theorem advance_complete {request : DataRequest} (h : request.isSuspended = false)
    (events : List DataTaskEvent) : events.foldl advance request = request := by
  induction events with
  | nil => rfl
  | cons event events ih =>
    have hadvance : request.advance event = request := by simp [advance, h]
    rw [List.foldl_cons, hadvance, ih]

/-- The bytes a request has when its task completes. -/
theorem receivedData_complete {request : DataRequest} {events : List DataTaskEvent}
    (h : (events.foldl advance request).isSuspended = true) (error : Option NSError) :
    ∃ data, receivedData (events ++ [.didComplete error]) = some data ∧
      (events.foldl advance request).mutableData = request.mutableData ++ data := by
  induction events generalizing request with
  | nil => exact ⟨[], rfl, by simp⟩
  | cons event events ih =>
    have hsuspended : request.isSuspended = true := by
      by_contra hcomplete
      rw [advance_complete (Bool.eq_false_iff.mpr hcomplete)] at h
      exact hcomplete h
    have hadvance : request.advance event = request.receive event := by rw [advance, if_pos hsuspended]
    rw [List.foldl_cons, hadvance] at h ⊢
    obtain ⟨data, hdata, hbytes⟩ := ih h
    cases event with
    | didReceiveResponse statusCode => exact ⟨data, hdata, hbytes⟩
    | didReceive chunk =>
      refine ⟨chunk ++ data, by rw [List.cons_append, receivedData, hdata]; rfl, ?_⟩
      rw [hbytes, receive, List.append_assoc]
    | didComplete error =>
      have hcomplete : (request.receive (.didComplete error)).isSuspended = false := rfl
      rw [advance_complete hcomplete] at h
      exact absurd h (by simp [hcomplete])

end DataRequest

namespace ServiceParsingJSON

variable {α : Type} [Decodable α]

theorem parseArray_ne_nil (json : JSONSerialization) (jsonData : Data) :
    @parseArray α _ json jsonData ≠ [] := by
  rw [parseArray, parse]
  cases @JSONSerialization.decodeData (List α) _ json jsonData <;> simp

theorem parseArray_of_next {json : JSONSerialization} {jsonData : Data} {values : List α}
    (h : .next values ∈ parseArray json jsonData) : parseArray json jsonData = [.next values, .completed] := by
  rw [parseArray, parse] at h ⊢
  cases hdata : @JSONSerialization.decodeData (List α) _ json jsonData with
  | none => simp [hdata] at h
  | some values' =>
    obtain rfl : values = values' := by simpa [hdata] using h
    rfl

theorem parseArray_next_iff [LawfulDecodable α] {json : JSONSerialization} {jsonData : Data}
    {values : List α} : parseArray json jsonData = [.next values, .completed] ↔
      ∃ j, json.jsonObject jsonData = some j ∧ j.Carries (encode values) := by
  rw [← JSONSerialization.decodeData_iff, parseArray, parse]
  cases @JSONSerialization.decodeData (List α) _ json jsonData <;> simp

theorem parseArray_error_iff [LawfulDecodable α] {json : JSONSerialization} {jsonData : Data}
    {error : DownloadError} : @parseArray α _ json jsonData = [.error error] ↔
      error = .parsingError .couldNotParse ∧
        ∀ (j : Json) (values : List α), json.jsonObject jsonData = some j → ¬ j.Carries (encode values) := by
  have hdecode (values : List α) := @JSONSerialization.decodeData_iff _ _ _ json jsonData values
  rw [parseArray, parse]
  cases hdata : @JSONSerialization.decodeData (List α) _ json jsonData with
  | none =>
    rw [hdata] at hdecode
    constructor
    · intro h
      refine ⟨by simpa using h.symm, fun j values hj hcarries => ?_⟩
      exact absurd ((hdecode values).mpr ⟨j, hj, hcarries⟩) (Option.some_ne_none _).symm
    · rintro ⟨rfl, _⟩
      rfl
  | some values =>
    obtain ⟨j, hj, hcarries⟩ := (hdecode values).mp hdata
    exact iff_of_false (by simp) fun h => h.2 j values hj hcarries

theorem parse_ends (json : JSONSerialization) (jsonData : Data) :
    ∃ (values : List α) (stop : Rx.Event DownloadError α), (stop.isError = true ∨ stop.isCompleted = true) ∧
      @parse α _ json jsonData = values.map .next ++ [stop] := by
  rw [parse]
  cases @JSONSerialization.decodeData α _ json jsonData with
  | some value => exact ⟨[value], .completed, .inr rfl, rfl⟩
  | none => exact ⟨[], .error (.parsingError .couldNotParse), .inl rfl, rfl⟩

end ServiceParsingJSON

namespace ServiceDownloadData

variable {α : Type} [Decodable α]

theorem download_responseJSON (json : JSONSerialization) (request : DataRequest) :
    download json (request.responseJSON json) =
      ServiceParsingJSON.parseArray (α := α) json request.mutableData := by
  obtain ⟨_, _, hstop, hparse⟩ := @ServiceParsingJSON.parse_ends (List α) _ json request.mutableData
  exact @Rx.flatMap_single _ _ _ _ request.mutableData _ _ hstop hparse

section

variable {json : JSONSerialization} {url : String} {request : DataRequest}

theorem step_didComplete (h : request.isSuspended = true) (error : Option NSError) :
    (@downloading α _ json url).step request (.didComplete error) =
      (request.receive (.didComplete error), ServiceParsingJSON.parseArray json request.mutableData) := by
  have hdownload := download_responseJSON (α := α) json (request.receive (.didComplete error))
  simp only [downloading, DataRequest.advance, h, if_true, hdownload]
  rfl

theorem step_complete (h : request.isSuspended = false) (event : DataTaskEvent) :
    (@downloading α _ json url).step request event = (request, []) := by
  cases event <;> simp [downloading, DataRequest.advance, h]

theorem step_shape (event : DataTaskEvent) :
    ((@downloading α _ json url).step request event).2 = [] ∨
      (∃ values, ((@downloading α _ json url).step request event).2 = [.next values, .completed]) ∨
      ∃ error, ((@downloading α _ json url).step request event).2 = [.error error] := by
  cases hsuspended : request.isSuspended with
  | false => exact .inl (by rw [step_complete hsuspended])
  | true =>
    cases event with
    | didComplete error =>
      rw [step_didComplete hsuspended, ServiceParsingJSON.parseArray, ServiceParsingJSON.parse]
      cases @JSONSerialization.decodeData (List α) _ json request.mutableData with
      | none => exact .inr (.inr ⟨_, rfl⟩)
      | some values => exact .inr (.inl ⟨values, rfl⟩)
    | _ => exact .inl rfl

/-- A list comes with the completion of the task, out of the bytes received. -/
theorem step_next [LawfulDecodable α] {event : DataTaskEvent} {values : List α}
    (h : .next values ∈ ((@downloading α _ json url).step request event).2) :
    ∃ error j, event = .didComplete error ∧ request.isSuspended = true ∧
      json.jsonObject request.mutableData = some j ∧ j.Carries (encode values) := by
  cases hsuspended : request.isSuspended with
  | false =>
    rw [step_complete hsuspended] at h
    simp at h
  | true =>
    cases event with
    | didComplete error =>
      rw [step_didComplete hsuspended] at h
      have hlist := ServiceParsingJSON.parseArray_of_next h
      obtain ⟨j, hj, hcarries⟩ := ServiceParsingJSON.parseArray_next_iff.mp hlist
      exact ⟨error, j, rfl, rfl, hj, hcarries⟩
    | _ => simp [downloading] at h

theorem outputs_complete (h : request.isSuspended = false) (events : List DataTaskEvent) :
    (@downloading α _ json url).outputs request events = [] := by
  induction events with
  | nil => rfl
  | cons event events ih =>
    rw [Machine.outputs, step_complete h]
    exact ih

end

/-- What a download tells its observer, over all that can happen to its task. -/
theorem outputs_downloading (json : JSONSerialization) (url : String) (request : DataRequest)
    (h : request.isSuspended = true) (events : List DataTaskEvent) :
    (@downloading α _ json url).outputs request events =
      match receivedData events with
      | none => []
      | some data => ServiceParsingJSON.parseArray json (request.mutableData ++ data) := by
  induction events generalizing request with
  | nil => rfl
  | cons event events ih =>
    have hadvance : request.advance event = request.receive event := by rw [DataRequest.advance, if_pos h]
    cases event with
    | didReceiveResponse statusCode =>
      have hstep : (@downloading α _ json url).step request (.didReceiveResponse statusCode) =
          ({ request with statusCode := some statusCode }, []) := Prod.ext hadvance rfl
      rw [Machine.outputs, hstep, List.nil_append]
      exact ih { request with statusCode := some statusCode } h
    | didReceive data =>
      have hstep : (@downloading α _ json url).step request (.didReceive data) =
          ({ request with mutableData := request.mutableData ++ data }, []) := Prod.ext hadvance rfl
      rw [Machine.outputs, hstep, List.nil_append,
        ih { request with mutableData := request.mutableData ++ data } h, receivedData]
      cases receivedData events with
      | none => rfl
      | some rest => simp only [Option.map_some, List.append_assoc]
    | didComplete error =>
      have hcomplete : (request.receive (.didComplete error)).isSuspended = false := rfl
      rw [Machine.outputs, step_didComplete h, outputs_complete hcomplete, receivedData]
      simp only [List.append_nil]

end ServiceDownloadData

/-- A download tells its observer a list exactly when the bytes of its task, put
together, are a document that carries the list, and it fails exactly when they
are no such document, whatever the status and the error of the task are. -/
structure DownloadsExactly {α : Type} [Decodable α] [LawfulDecodable α] (json : JSONSerialization)
    (request : Machine DataRequest DataTaskEvent (Rx.Event DownloadError (List α))) : Prop where
  pending : ∀ (events : List DataTaskEvent), request.outputs {} events = [] ↔ receivedData events = none
  succeeds : ∀ (events : List DataTaskEvent) (values : List α),
    request.outputs {} events = [.next values, .completed] ↔
      ∃ data j, receivedData events = some data ∧ json.jsonObject data = some j ∧ j.Carries (encode values)
  fails : ∀ (events : List DataTaskEvent) (error : DownloadError),
    request.outputs {} events = [.error error] ↔ error = .parsingError .couldNotParse ∧
      ∃ data, receivedData events = some data ∧
        ∀ (j : Json) (values : List α), json.jsonObject data = some j → ¬ j.Carries (encode values)

namespace ServiceDownloadData

theorem downloading_exactly {α : Type} [Decodable α] [LawfulDecodable α] (json : JSONSerialization)
    (url : String) : DownloadsExactly json (@downloading α _ json url) := by
  have houtputs (events : List DataTaskEvent) := outputs_downloading (α := α) json url {} rfl events
  refine ⟨fun events => ?_, fun events values => ?_, fun events error => ?_⟩
  · rw [houtputs]
    cases receivedData events with
    | none => simp
    | some data => exact iff_of_false (ServiceParsingJSON.parseArray_ne_nil json _) (by simp)
  · rw [houtputs]
    cases receivedData events with
    | none => simp
    | some data => simp [ServiceParsingJSON.parseArray_next_iff]
  · rw [houtputs]
    cases receivedData events with
    | none => simp
    | some data => simp [ServiceParsingJSON.parseArray_error_iff]

/-- The three downloads of the app. -/
theorem downloads_exactly (json : JSONSerialization) : DownloadsExactly json (requestOffice json) ∧
    DownloadsExactly json (requestRooms json) ∧ DownloadsExactly json (serviceWorkplace json) :=
  ⟨downloading_exactly json _, downloading_exactly json _, downloading_exactly json _⟩

end ServiceDownloadData

end Reservation
