import Reservation.DataModel
import Reservation.Errors
import Reservation.RxOperators
import Mathlib.Data.String.Basic

/-! The saves and reads of `ServiceCoreData` that go through keys and entity
names. The three pairs have one shape; a `Kind` is what they differ in. -/

namespace Reservation

open ManagedObjects

structure Office where
  number : Int32
  name : String
  deriving DecidableEq

structure RoomsJSON where
  name : String
  isAvailable : Bool
  deriving DecidableEq

structure WorkPlace where
  name : String
  number : String
  isAvailable : Bool
  deriving DecidableEq

structure Kind (α : Type) where
  -- the literal of the save, and the class name of the read
  forEntityName : String
  entityName : String
  sortDescriptor : Option String
  values : α → List (Value × String)
  decode : NSManagedObject → Option α

namespace Kind

variable {α : Type}

def saveItem (kind : Kind α) (g : ObjectGraph) (item : α) :
    Option (ObjectGraph × List (Rx.Event AnyError Unit)) :=
  match EntityDescription.entity kind.forEntityName with
  | some entity => do
    let object ← (kind.values item).foldlM (fun object value => object.setValue value.1 value.2)
      (NSManagedObject.inserted entity)
    return ({ g with objects := g.objects ++ [object] }, [])
  -- the error is reported in the middle of the loop, which goes on
  | none => some (g, [.error (.entityError .entityNotFound)])

def saveItems (kind : Kind α) (g : ObjectGraph) : List α →
    Option (ObjectGraph × List (Rx.Event AnyError Unit))
  | [] => some (g, [])
  | item :: items => do
    let head ← kind.saveItem g item
    let tail ← kind.saveItems head.1 items
    return (tail.1, head.2 ++ tail.2)

def save (kind : Kind α) (items : List α) (error : Option NSError) (context : Context ObjectGraph) :
    Option (Context ObjectGraph × List (Rx.Event AnyError Unit)) := do
  let loop ← kind.saveItems context.registered items
  let context := context.edit fun _ => loop.1
  match context.save error with
  | .ok context => return (context, Rx.create (loop.2 ++ [.next (), .completed]))
  | .error error => return (context, Rx.create (loop.2 ++ [.error (.nsError error)]))

def fetchOrder (kind : Kind α) (order : FetchOrder NSManagedObject) : FetchOrder NSManagedObject :=
  match kind.sortDescriptor with
  | some key => order.sorted fun a b => Value.le (a.value key) (b.value key)
  | none => order

def rows (kind : Kind α) (g : ObjectGraph) : List NSManagedObject :=
  g.objects.filter fun object => object.entity.name == kind.entityName

def read (kind : Kind α) (order : FetchOrder NSManagedObject) (error : Option NSError)
    (context : Context ObjectGraph) : Option (List (Rx.Event NSError (List α))) :=
  match fetch (kind.fetchOrder order) (kind.rows context.registered) error with
  | .ok fetchData => do
    let items ← fetchData.mapM kind.decode
    return [.next items, .completed]
  | .error error => some [.error error]

end Kind

namespace ServiceCoreData

def officesKind : Kind Office where
  forEntityName := "Offices"
  entityName := "Offices"
  sortDescriptor := some "number"
  values office := [(.string office.name, "name"), (.int32 office.number, "number")]
  decode data := do
    let name ← (← data.value "name").asString
    let number ← (← data.value "number").asInt32
    return { number, name }

def roomsKind : Kind RoomsJSON where
  forEntityName := "RoomsData"
  entityName := "RoomsData"
  sortDescriptor := none
  values room := [(.string room.name, "name"), (.bool room.isAvailable, "isAvailable")]
  decode data := do
    let name ← (← data.value "name").asString
    let isAvailable ← (← data.value "isAvailable").asBool
    return { name, isAvailable }

def workplacesKind : Kind WorkPlace where
  forEntityName := "WorkPlaceData"
  entityName := "WorkPlaceData"
  sortDescriptor := some "number"
  values work := [(.string work.name, "name"), (.string work.number, "number"),
    (.bool work.isAvailable, "isAvailable")]
  decode data := do
    let name ← (← data.value "name").asString
    let number ← (← data.value "number").asString
    let isAvailable ← (← data.value "isAvailable").asBool
    return { name, number, isAvailable }

def saveOfficeData (offices : List Office) := officesKind.save offices

def readOfficeData := officesKind.read

def saveRoomsData (rooms : List RoomsJSON) := roomsKind.save rooms

def readRoomsData := roomsKind.read

def saveWorkplaceData (workplace : List WorkPlace) := workplacesKind.save workplace

def readWorkplaceData := workplacesKind.read

end ServiceCoreData

def Office.object (office : Office) : NSManagedObject where
  entity := ⟨"Offices", [⟨"name", .string, none⟩, ⟨"number", .integer32, some (.int32 0)⟩]⟩
  values := [("number", .int32 office.number), ("name", .string office.name), ("number", .int32 0)]

def RoomsJSON.object (room : RoomsJSON) : NSManagedObject where
  entity := ⟨"RoomsData", [⟨"isAvailable", .boolean, none⟩, ⟨"name", .string, none⟩]⟩
  values := [("isAvailable", .bool room.isAvailable), ("name", .string room.name)]

def WorkPlace.object (work : WorkPlace) : NSManagedObject where
  entity := ⟨"WorkPlaceData",
    [⟨"isAvailable", .boolean, none⟩, ⟨"name", .string, none⟩, ⟨"number", .string, none⟩]⟩
  values :=
    [("isAvailable", .bool work.isAvailable), ("number", .string work.number), ("name", .string work.name)]

namespace Kind

variable {α β : Type}

/-- The names resolve, the keys are set with values of their type, and the read
gets back what the save has set. -/
structure Lawful (kind : Kind α) (object : α → NSManagedObject) : Prop where
  saveItem : ∀ g item, kind.saveItem g item = some ({ g with objects := g.objects ++ [object item] }, [])
  name : ∀ item, (object item).entity.name = kind.entityName
  decode : ∀ item, kind.decode (object item) = some item

def Holds (kind : Kind α) (g : ObjectGraph) (items : List α) : Prop :=
  (kind.rows g).mapM kind.decode = some items

def report : Option NSError → List (Rx.Event AnyError Unit)
  | none => [.next (), .completed]
  | some error => [.error (.nsError error)]

theorem Lawful.saveItems {kind : Kind α} {object : α → NSManagedObject} (h : kind.Lawful object)
    (g : ObjectGraph) (items : List α) :
    kind.saveItems g items = some ({ g with objects := g.objects ++ items.map object }, []) := by
  induction items generalizing g with
  | nil => simp [Kind.saveItems]
  | cons item items ih =>
    simp only [Kind.saveItems, h.saveItem, ih, Option.bind_eq_bind, Option.bind_some, Option.pure_def,
      List.append_nil, List.map_cons, List.append_assoc, List.singleton_append]

theorem Lawful.save {kind : Kind α} {object : α → NSManagedObject} (h : kind.Lawful object)
    (items : List α) (error : Option NSError) (context : Context ObjectGraph) :
    kind.save items error context =
      some (context.transact (fun g => { g with objects := g.objects ++ items.map object }) error,
        report error) := by
  rw [Kind.save, h.saveItems]
  cases error <;> rfl

theorem holds_empty (kind : Kind α) : kind.Holds {} [] := rfl

theorem Lawful.holds_append {kind : Kind α} {object : α → NSManagedObject} (h : kind.Lawful object)
    {g : ObjectGraph} {items : List α} (hg : kind.Holds g items) (more : List α) :
    kind.Holds { g with objects := g.objects ++ more.map object } (items ++ more) := by
  have hnew : (more.map object).filter (fun o => o.entity.name == kind.entityName) = more.map object := by
    simp [List.filter_eq_self, h.name]
  have hdecode : (more.map object).mapM kind.decode = some more := by
    apply mapM_eq_some_iff.mpr
    simp [h.decode, List.filterMap_map]
  rw [Holds, rows, List.filter_append, hnew, List.mapM_append, hdecode]
  change ((kind.rows g).mapM kind.decode >>= _) = _
  rw [hg]
  rfl

theorem Lawful.holds_other {kind : Kind α} {other : Kind β} {object : β → NSManagedObject}
    (h : other.Lawful object) (hname : other.entityName ≠ kind.entityName) {g : ObjectGraph}
    {items : List α} (hg : kind.Holds g items) (more : List β) :
    kind.Holds { g with objects := g.objects ++ more.map object } items := by
  have hnew : (more.map object).filter (fun o => o.entity.name == kind.entityName) = [] := by
    simp [List.filter_eq_nil_iff, h.name, hname]
  rw [Holds, rows, List.filter_append, hnew, List.append_nil]
  exact hg

theorem Holds.read {kind : Kind α} {context : Context ObjectGraph} {items : List α}
    (h : kind.Holds context.registered items) (order : FetchOrder NSManagedObject) :
    ∃ out, kind.read order none context = some [.next out, .completed] ∧ out.Perm items := by
  obtain ⟨hsome, hitems⟩ := mapM_eq_some_iff.mp h
  have hfetch := (fetched_isSome_iff (kind.fetchOrder order) kind.decode _).mpr hsome
  obtain ⟨out, hout⟩ := Option.isSome_iff_exists.mp hfetch
  refine ⟨out, ?_, hitems ▸ fetched_perm hout⟩
  simp only [Kind.read, fetch, hout]
  rfl

theorem read_next_iff {kind : Kind α} {order : FetchOrder NSManagedObject} {context : Context ObjectGraph}
    {out : List α} : kind.read order none context = some [.next out, .completed] ↔
      ((kind.fetchOrder order).arrange (kind.rows context.registered)).mapM kind.decode = some out := by
  simp only [Kind.read, fetch]
  cases ((kind.fetchOrder order).arrange (kind.rows context.registered)).mapM kind.decode <;> simp

/-- A read with a sort descriptor on an attribute that decodes to `sorted`. -/
theorem read_sorted {κ : Type*} [LinearOrder κ] {kind : Kind α} {name : String} {sorted : α → Value}
    {key : α → κ} (hsort : kind.sortDescriptor = some name)
    (hvalue : ∀ {data item}, kind.decode data = some item → data.value name = some (sorted item))
    (hle : ∀ x y, Value.le (some (sorted x)) (some (sorted y)) = decide (key x ≤ key y))
    {order : FetchOrder NSManagedObject} {context : Context ObjectGraph} {out : List α}
    (h : kind.read order none context = some [.next out, .completed]) :
    out.Pairwise fun x y => key x ≤ key y := by
  have hfetch := read_next_iff.mp h
  rw [fetchOrder, hsort] at hfetch
  apply fetched_sorted _ hfetch
  intro a b x y hx hy
  rw [hvalue hx, hvalue hy]
  exact hle x y

end Kind

namespace ServiceCoreData

theorem offices_lawful : officesKind.Lawful Office.object := ⟨fun _ _ => rfl, fun _ => rfl, fun _ => rfl⟩

theorem rooms_lawful : roomsKind.Lawful RoomsJSON.object := ⟨fun _ _ => rfl, fun _ => rfl, fun _ => rfl⟩

theorem workplaces_lawful : workplacesKind.Lawful WorkPlace.object :=
  ⟨fun _ _ => rfl, fun _ => rfl, fun _ => rfl⟩

theorem office_number {data : NSManagedObject} {office : Office}
    (h : officesKind.decode data = some office) : data.value "number" = some (.int32 office.number) := by
  simp only [officesKind, Option.bind_eq_bind, Option.pure_def, Option.bind_eq_some_iff,
    Option.some.injEq] at h
  obtain ⟨_, _, _, _, value, hvalue, number, hnumber, rfl⟩ := h
  cases value <;> simp [Value.asInt32] at hnumber
  rw [hvalue, hnumber]

theorem workplace_number {data : NSManagedObject} {work : WorkPlace}
    (h : workplacesKind.decode data = some work) : data.value "number" = some (.string work.number) := by
  simp only [workplacesKind, Option.bind_eq_bind, Option.pure_def, Option.bind_eq_some_iff,
    Option.some.injEq] at h
  obtain ⟨_, _, _, _, value, hvalue, number, hnumber, _, _, _, _, rfl⟩ := h
  cases value <;> simp [Value.asString] at hnumber
  rw [hvalue, hnumber]

theorem readOfficeData_sorted {order : FetchOrder NSManagedObject} {context : Context ObjectGraph}
    {offices : List Office} (h : readOfficeData order none context = some [.next offices, .completed]) :
    offices.Pairwise fun a b => a.number ≤ b.number := by
  have hle (x y : Office) : Value.le (some (.int32 x.number)) (some (.int32 y.number)) =
      decide (x.number.toInt ≤ y.number.toInt) := decide_eq_decide.mpr Int32.le_iff_toInt_le
  have hread : officesKind.read order none context = some [.next offices, .completed] := h
  exact (Kind.read_sorted rfl office_number hle hread).imp Int32.le_iff_toInt_le.mpr

theorem readWorkplaceData_sorted {order : FetchOrder NSManagedObject} {context : Context ObjectGraph}
    {workplace : List WorkPlace}
    (h : readWorkplaceData order none context = some [.next workplace, .completed]) :
    workplace.Pairwise fun a b => a.number ≤ b.number := by
  have hle (x y : WorkPlace) : Value.le (some (.string x.number)) (some (.string y.number)) =
      decide (x.number ≤ y.number) := decide_eq_decide.mpr Iff.rfl
  have hread : workplacesKind.read order none context = some [.next workplace, .completed] := h
  exact Kind.read_sorted rfl workplace_number hle hread

end ServiceCoreData

end Reservation
