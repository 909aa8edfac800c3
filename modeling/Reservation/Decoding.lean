import Reservation.Catalogue
import Reservation.Json

/-! The formats of the files and downloads: the initializers that Swift derives
for the `Decodable` types, and the services that decode with them. -/

namespace Reservation

open Decodable LawfulDecodable

instance : Decodable Office where
  decode j := do
    let number ← decodeKey "number" j
    let name ← decodeKey "name" j
    return { number, name }

instance : Decodable RoomsJSON where
  decode j := do
    let name ← decodeKey "name" j
    let isAvailable ← decodeKey "is_available" j
    return { name, isAvailable }

instance : Decodable WorkPlace where
  decode j := do
    let name ← decodeKey "name" j
    let number ← decodeKey "number" j
    let isAvailable ← decodeKey "isAvailable" j
    return { name, number, isAvailable }

instance : Decodable User.Pet where
  decode j := do
    let name ← decodeKey "name" j
    let color ← decodeKey "color" j
    let legs ← decodeKey "legs" j
    let eye ← decodeKey "eye" j
    return { name, color, legs, eye }

instance : Decodable User.Numbers where
  decode j := do
    let personalNumber ← decodeKey "personalNumber" j
    let homeNumber ← decodeKey "homeNumber" j
    return { personalNumber, homeNumber }

instance : Decodable User where
  decode j := do
    let firstName ← decodeKey "firstName" j
    let lastName ← decodeKey "lastName" j
    let country ← decodeKey "country" j
    let city ← decodeKey "city" j
    let yearOfBrith ← decodeKey "year_of_brith" j
    let pet ← decodeKey "pet" j
    let numbers ← decodeKey "numbers" j
    return { firstName, lastName, country, city, yearOfBrith, pet, numbers }

abbrev Data := List UInt8

/-- What `JSONSerialization` makes of a text, by itself and when the options allow
any value at the top level. -/
structure JSONSerialization where
  jsonObject : Data → Option Json
  allowFragments : Data → Option Json

inductive ParsingError
  | couldNotParse
  deriving DecidableEq

inductive AFError
  | inputDataNilOrZeroLength
  | jsonSerializationFailed
  deriving DecidableEq

inductive DownloadError
  | nsError (error : NSError)
  | afError (error : AFError)
  | parsingError (error : ParsingError)
  deriving DecidableEq

namespace JSONSerialization

variable {α : Type} [Decodable α]

/-- `JSONDecoder().decode` -/
def decodeData (json : JSONSerialization) (jsonData : Data) : Option α := (json.jsonObject jsonData).bind decode

end JSONSerialization

namespace ServiceParsingJSON

variable {α : Type} [Decodable α]

def parse (json : JSONSerialization) (jsonData : Data) : List (Rx.Event DownloadError α) :=
  match json.decodeData jsonData with
  | some decodedData => [.next decodedData, .completed]
  | none => [.error (.parsingError .couldNotParse)]

def parseArray (json : JSONSerialization) (jsonData : Data) : List (Rx.Event DownloadError (List α)) :=
  parse json jsonData

end ServiceParsingJSON

/-- What `onFinish` is called with, if it is. -/
def ServiceParse.parsingArray {α : Type} [Decodable α] (json : JSONSerialization) (jsonData : Data) :
    Option (List α) := json.decodeData jsonData

/-- Only the keys of a type are read, and each of them has to be there. -/
theorem decode_bind_iff {α β : Type} [Decodable α] [LawfulDecodable α] {key : String} {j : Json}
    {f : α → Option β} {out : β} :
    (decodeKey key j).bind f = some out ↔ ∃ value, j.Has key (encode value) ∧ f value = some out := by
  simp only [Option.bind_eq_some_iff, decodeKey_iff]

instance : LawfulDecodable Office where
  encode office := .object [("number", encode office.number), ("name", encode office.name)]
  decode_iff {j office} := by
    simp only [decode, Option.bind_eq_bind, decode_bind_iff, Option.pure_def, Option.some.injEq,
      Json.carries_object_cons]
    constructor
    · rintro ⟨_, hnumber, _, hname, rfl⟩
      exact ⟨hnumber, hname, hname.carries_nil⟩
    · rintro ⟨hnumber, hname, _⟩
      exact ⟨_, hnumber, _, hname, rfl⟩

instance : LawfulDecodable RoomsJSON where
  encode rooms := .object [("name", encode rooms.name), ("is_available", encode rooms.isAvailable)]
  decode_iff {j rooms} := by
    simp only [decode, Option.bind_eq_bind, decode_bind_iff, Option.pure_def, Option.some.injEq,
      Json.carries_object_cons]
    constructor
    · rintro ⟨_, hname, _, hisAvailable, rfl⟩
      exact ⟨hname, hisAvailable, hisAvailable.carries_nil⟩
    · rintro ⟨hname, hisAvailable, _⟩
      exact ⟨_, hname, _, hisAvailable, rfl⟩

instance : LawfulDecodable WorkPlace where
  encode workplace := .object
    [("name", encode workplace.name), ("number", encode workplace.number),
     ("isAvailable", encode workplace.isAvailable)]
  decode_iff {j workplace} := by
    simp only [decode, Option.bind_eq_bind, decode_bind_iff, Option.pure_def, Option.some.injEq,
      Json.carries_object_cons]
    constructor
    · rintro ⟨_, hname, _, hnumber, _, hisAvailable, rfl⟩
      exact ⟨hname, hnumber, hisAvailable, hisAvailable.carries_nil⟩
    · rintro ⟨hname, hnumber, hisAvailable, _⟩
      exact ⟨_, hname, _, hnumber, _, hisAvailable, rfl⟩

instance : LawfulDecodable User.Pet where
  encode pet := .object
    [("name", encode pet.name), ("color", encode pet.color), ("legs", encode pet.legs),
     ("eye", encode pet.eye)]
  decode_iff {j pet} := by
    simp only [decode, Option.bind_eq_bind, decode_bind_iff, Option.pure_def, Option.some.injEq,
      Json.carries_object_cons]
    constructor
    · rintro ⟨_, hname, _, hcolor, _, hlegs, _, heye, rfl⟩
      exact ⟨hname, hcolor, hlegs, heye, heye.carries_nil⟩
    · rintro ⟨hname, hcolor, hlegs, heye, _⟩
      exact ⟨_, hname, _, hcolor, _, hlegs, _, heye, rfl⟩

instance : LawfulDecodable User.Numbers where
  encode number := .object
    [("personalNumber", encode number.personalNumber), ("homeNumber", encode number.homeNumber)]
  decode_iff {j number} := by
    simp only [decode, Option.bind_eq_bind, decode_bind_iff, Option.pure_def, Option.some.injEq,
      Json.carries_object_cons]
    constructor
    · rintro ⟨_, hpersonalNumber, _, hhomeNumber, rfl⟩
      exact ⟨hpersonalNumber, hhomeNumber, hhomeNumber.carries_nil⟩
    · rintro ⟨hpersonalNumber, hhomeNumber, _⟩
      exact ⟨_, hpersonalNumber, _, hhomeNumber, rfl⟩

instance : LawfulDecodable User where
  encode user := .object
    [("firstName", encode user.firstName), ("lastName", encode user.lastName),
     ("country", encode user.country), ("city", encode user.city),
     ("year_of_brith", encode user.yearOfBrith), ("pet", encode user.pet),
     ("numbers", encode user.numbers)]
  decode_iff {j user} := by
    simp only [decode, Option.bind_eq_bind, decode_bind_iff, Option.pure_def, Option.some.injEq,
      Json.carries_object_cons]
    constructor
    · rintro ⟨_, hfirstName, _, hlastName, _, hcountry, _, hcity, _, hyearOfBrith, _, hpet, _, hnumbers, rfl⟩
      exact ⟨hfirstName, hlastName, hcountry, hcity, hyearOfBrith, hpet, hnumbers, hnumbers.carries_nil⟩
    · rintro ⟨hfirstName, hlastName, hcountry, hcity, hyearOfBrith, hpet, hnumbers, _⟩
      exact ⟨_, hfirstName, _, hlastName, _, hcountry, _, hcity, _, hyearOfBrith, _, hpet, _, hnumbers, rfl⟩

theorem JSONSerialization.decodeData_iff {α : Type} [Decodable α] [LawfulDecodable α]
    {json : JSONSerialization} {jsonData : Data} {value : α} :
    json.decodeData jsonData = some value ↔
      ∃ j, json.jsonObject jsonData = some j ∧ j.Carries (encode value) := by
  simp only [decodeData, Option.bind_eq_some_iff, decode_iff]

end Reservation
