import Mathlib.Data.List.Forall2

/-! JSON documents, and decoders that read values from them. A decoder is lawful
if it accepts exactly the documents that carry the encoding of its value. -/

inductive Json
  | null
  | bool (value : Bool)
  | number (value : Rat)
  | string (value : String)
  | array (elements : List Json)
  | object (members : List (String × Json))

namespace Json

mutual

/-- The document says what the other one says; its objects may say more. -/
def Carries : Json → Json → Prop
  | j, .null => j = .null
  | j, .bool value => j = .bool value
  | j, .number value => j = .number value
  | j, .string value => j = .string value
  | j, .array elements => ∃ found, j = .array found ∧ CarriesAll found elements
  | j, .object members => ∃ found, j = .object found ∧ CarriesMembers found members

def CarriesAll : List Json → List Json → Prop
  | found, [] => found = []
  | found, element :: elements =>
    ∃ first rest, found = first :: rest ∧ Carries first element ∧ CarriesAll rest elements

def CarriesMembers : List (String × Json) → List (String × Json) → Prop
  | _, [] => True
  | found, (key, value) :: members =>
    (∃ first, found.lookup key = some first ∧ Carries first value) ∧ CarriesMembers found members

end

/-- The document is an object whose member at this key carries the value. -/
def Has (j : Json) (key : String) (value : Json) : Prop :=
  ∃ found first, j = .object found ∧ found.lookup key = some first ∧ first.Carries value

theorem carriesAll_iff {found elements : List Json} :
    CarriesAll found elements ↔ List.Forall₂ Carries found elements := by
  induction elements generalizing found with
  | nil => simp [CarriesAll]
  | cons element elements ih =>
    rw [CarriesAll]
    constructor
    · rintro ⟨first, rest, rfl, hfirst, hrest⟩
      exact .cons hfirst (ih.mp hrest)
    · intro h
      obtain ⟨first, rest, hfirst, hrest, rfl⟩ := List.forall₂_cons_right_iff.mp h
      exact ⟨first, rest, rfl, hfirst, ih.mpr hrest⟩

theorem carries_array_iff {j : Json} {elements : List Json} :
    j.Carries (.array elements) ↔ ∃ found, j = .array found ∧ List.Forall₂ Carries found elements := by
  simp only [Carries, carriesAll_iff]

theorem carries_object_nil {j : Json} : j.Carries (.object []) ↔ ∃ found, j = .object found := by
  simp only [Carries, CarriesMembers, and_true]

theorem carries_object_cons {j : Json} {key : String} {value : Json} {members : List (String × Json)} :
    j.Carries (.object ((key, value) :: members)) ↔ j.Has key value ∧ j.Carries (.object members) := by
  simp only [Carries, CarriesMembers, Has]
  constructor
  · rintro ⟨found, rfl, ⟨first, hfirst, hvalue⟩, hmembers⟩
    exact ⟨⟨found, first, rfl, hfirst, hvalue⟩, found, rfl, hmembers⟩
  · rintro ⟨⟨found, first, rfl, hfirst, hvalue⟩, found', hfound, hmembers⟩
    obtain rfl := Json.object.inj hfound
    exact ⟨found, rfl, ⟨first, hfirst, hvalue⟩, hmembers⟩

theorem Has.carries_nil {j : Json} {key : String} {value : Json} (h : j.Has key value) :
    j.Carries (.object []) := by
  obtain ⟨found, _, rfl, _⟩ := h
  exact carries_object_nil.mpr ⟨found, rfl⟩

end Json

class Decodable (α : Type) where
  decode : Json → Option α

class LawfulDecodable (α : Type) [Decodable α] where
  encode : α → Json
  decode_iff : ∀ {j : Json} {value : α}, Decodable.decode j = some value ↔ j.Carries (encode value)

namespace Decodable

variable {α : Type}

instance : Decodable String where
  decode
    | .string value => some value
    | _ => none

instance : Decodable Bool where
  decode
    | .bool value => some value
    | _ => none

/-- A number that is one of these integers, however it is written. -/
instance : Decodable Int32 where
  decode
    | .number value =>
      if (Int32.ofInt value.num).toInt = value then some (Int32.ofInt value.num) else none
    | _ => none

instance [Decodable α] : Decodable (List α) where
  decode
    | .array elements => elements.mapM decode
    | _ => none

/-- `decode(_:forKey:)` of the keyed container of a document. -/
def decodeKey [Decodable α] (key : String) : Json → Option α
  | .object members => (members.lookup key).bind decode
  | _ => none

end Decodable

namespace LawfulDecodable

open Decodable

variable {α : Type}

instance : LawfulDecodable String where
  encode := .string
  decode_iff {j value} := by
    cases j <;> simp [decode, Json.Carries]

instance : LawfulDecodable Bool where
  encode := .bool
  decode_iff {j value} := by
    cases j <;> simp [decode, Json.Carries]

instance : LawfulDecodable Int32 where
  encode value := .number value.toInt
  decode_iff {j value} := by
    cases j with
    | number found =>
      simp only [decode, Json.Carries, Json.number.injEq]
      constructor
      · intro h
        split at h
        case isTrue hfound => rw [← hfound, ← Option.some.inj h]
        case isFalse => simp at h
      · rintro rfl
        simp
    | _ => simp [decode, Json.Carries]

theorem mapM_decode_iff [Decodable α] [LawfulDecodable α] {elements : List Json} {values : List α} :
    elements.mapM decode = some values ↔ List.Forall₂ Json.Carries elements (values.map encode) := by
  induction elements generalizing values with
  | nil => cases values <;> simp
  | cons element elements ih =>
    cases values with
    | nil => simp [Option.bind_eq_some_iff]
    | cons value values =>
      simp only [List.mapM_cons, Option.bind_eq_bind, Option.pure_def, Option.bind_eq_some_iff,
        Option.some.injEq, List.cons.injEq, List.map_cons, List.forall₂_cons, decode_iff, ih]
      constructor
      · rintro ⟨_, hvalue, _, hvalues, rfl, rfl⟩
        exact ⟨hvalue, hvalues⟩
      · rintro ⟨hvalue, hvalues⟩
        exact ⟨value, hvalue, values, hvalues, rfl, rfl⟩

instance [Decodable α] [LawfulDecodable α] : LawfulDecodable (List α) where
  encode values := .array (values.map encode)
  decode_iff {j values} := by
    rw [Json.carries_array_iff]
    cases j with
    | array elements => simp [decode, mapM_decode_iff]
    | _ => simp [decode]

theorem decodeKey_iff [Decodable α] [LawfulDecodable α] {key : String} {j : Json} {value : α} :
    decodeKey key j = some value ↔ j.Has key (encode value) := by
  cases j with
  | object members =>
    simp only [decodeKey, Option.bind_eq_some_iff, decode_iff]
    constructor
    · rintro ⟨first, hfirst, hvalue⟩
      exact ⟨members, first, rfl, hfirst, hvalue⟩
    · rintro ⟨found, first, hfound, hfirst, hvalue⟩
      obtain rfl := Json.object.inj hfound
      exact ⟨first, hfirst, hvalue⟩
  | _ => simp [decodeKey, Json.Has]

/-- No two values have an encoding that one document carries. -/
theorem carries_unique [Decodable α] [LawfulDecodable α] {j : Json} {value value' : α}
    (h : j.Carries (encode value)) (h' : j.Carries (encode value')) : value = value' := by
  rw [← decode_iff] at h h'
  exact Option.some.inj (h.symm.trans h')

end LawfulDecodable
