import Reservation.ManagedObjects

/-! Managed objects reached by key: the entities `Offices`, `RoomsData` and
`WorkPlaceData` of the data model, whose attributes the app only names in strings.
An unknown key raises an exception, and so does a value of another type. -/

namespace Reservation

inductive AttributeType
  | string
  | integer32
  | boolean
  deriving DecidableEq

inductive Value
  | string (value : String)
  | int32 (value : Int32)
  | bool (value : Bool)
  deriving DecidableEq

namespace Value

def attributeType : Value → AttributeType
  | string _ => .string
  | int32 _ => .integer32
  | bool _ => .boolean

def asString : Value → Option String
  | string value => some value
  | _ => none

def asInt32 : Value → Option Int32
  | int32 value => some value
  | _ => none

def asBool : Value → Option Bool
  | bool value => some value
  | _ => none

/-- Ascending order of an attribute: strings by their characters, `nil` first. -/
def le : Option Value → Option Value → Bool
  | some (string a), some (string b) => a ≤ b
  | some (int32 a), some (int32 b) => a ≤ b
  | some (bool a), some (bool b) => a ≤ b
  | none, _ => true
  | _, _ => false

end Value

structure AttributeDescription where
  name : String
  attributeType : AttributeType
  defaultValue : Option Value := none
  deriving DecidableEq

structure EntityDescription where
  name : String
  attributes : List AttributeDescription
  deriving DecidableEq

/-- The part of the data model file that is looked up by name. -/
def managedObjectModel : List EntityDescription :=
  [{ name := "Offices"
     attributes := [⟨"name", .string, none⟩, ⟨"number", .integer32, some (.int32 0)⟩] },
   { name := "RoomsData"
     attributes := [⟨"isAvailable", .boolean, none⟩, ⟨"name", .string, none⟩] },
   { name := "WorkPlaceData"
     attributes := [⟨"isAvailable", .boolean, none⟩, ⟨"name", .string, none⟩, ⟨"number", .string, none⟩] }]

def EntityDescription.entity (forEntityName : String) : Option EntityDescription :=
  managedObjectModel.find? fun entity => entity.name == forEntityName

structure NSManagedObject where
  entity : EntityDescription
  -- latest first
  values : List (String × Value)
  deriving DecidableEq

namespace NSManagedObject

def inserted (entity : EntityDescription) : NSManagedObject :=
  ⟨entity, entity.attributes.filterMap fun description =>
    description.defaultValue.map fun value => (description.name, value)⟩

def attributeNamed (object : NSManagedObject) (key : String) : Option AttributeDescription :=
  object.entity.attributes.find? fun description => description.name == key

def setValue (object : NSManagedObject) (value : Value) (forKey : String) : Option NSManagedObject := do
  let description ← object.attributeNamed forKey
  if description.attributeType = value.attributeType then
    some { object with values := (forKey, value) :: object.values }
  else none

/-- An unknown key and `nil` are alike fatal to the casts of the readers. -/
def value (object : NSManagedObject) (forKey : String) : Option Value := do
  let description ← object.attributeNamed forKey
  object.values.lookup description.name

end NSManagedObject

end Reservation
