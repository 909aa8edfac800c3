import Reservation.OneToOne
import Reservation.KeyValueCoding

/-! The entities `Users`, `Pets` and `NumbersPhone` of the data model, the object
graph a context keeps of them, and the `User` values the services store. Every
attribute and relationship is optional; the integers are scalars with default 0,
and a relationship is the place of its destination row. -/

namespace Reservation

structure User.Pet where
  name : String
  color : String
  legs : Int32
  eye : Int32
  deriving DecidableEq

structure User.Numbers where
  personalNumber : Int32
  homeNumber : Int32
  deriving DecidableEq

structure User where
  firstName : String
  lastName : String
  country : String
  city : String
  yearOfBrith : Int32
  pet : User.Pet
  numbers : List User.Numbers
  deriving DecidableEq

structure Users where
  firstName : Option String := none
  lastName : Option String := none
  country : Option String := none
  city : Option String := none
  yearOfBrith : Int32 := 0
  pets : Option Nat := none
  phoneNumbers : Option Nat := none
  deriving DecidableEq

structure Pets where
  name : Option String := none
  color : Option String := none
  legs : Int32 := 0
  eye : Int32 := 0
  user : Option Nat := none
  deriving DecidableEq

structure NumbersPhone where
  personalNumber : Int32 := 0
  homeNumber : Int32 := 0
  user : Option Nat := none
  deriving DecidableEq

namespace Users

def petsEnd : OneToOne.End Users := ⟨Users.pets, fun v row => { row with pets := v }, fun _ _ => rfl⟩

def phoneNumbersEnd : OneToOne.End Users :=
  ⟨Users.phoneNumbers, fun v row => { row with phoneNumbers := v }, fun _ _ => rfl⟩

def assign (row : Users) (data : User) : Users :=
  { row with
    firstName := some data.firstName
    lastName := some data.lastName
    country := some data.country
    city := some data.city
    yearOfBrith := data.yearOfBrith }

end Users

namespace Pets

def userEnd : OneToOne.End Pets := ⟨Pets.user, fun v row => { row with user := v }, fun _ _ => rfl⟩

def assign (row : Pets) (pet : User.Pet) : Pets :=
  { row with name := some pet.name, color := some pet.color, legs := pet.legs, eye := pet.eye }

end Pets

namespace NumbersPhone

def userEnd : OneToOne.End NumbersPhone :=
  ⟨NumbersPhone.user, fun v row => { row with user := v }, fun _ _ => rfl⟩

def assign (row : NumbersPhone) (number : User.Numbers) : NumbersPhone :=
  { row with personalNumber := number.personalNumber, homeNumber := number.homeNumber }

end NumbersPhone

/-- Everything in the one context of the app, each table in the order of insertion.
The rows of the other entities are only ever handled as `NSManagedObject`. -/
structure ObjectGraph where
  users : List Users := []
  pets : List Pets := []
  numbersPhone : List NumbersPhone := []
  objects : List NSManagedObject := []
  deriving DecidableEq

namespace ObjectGraph

def insertUsers (g : ObjectGraph) (row : Users) : ObjectGraph := { g with users := g.users ++ [row] }

def insertPets (g : ObjectGraph) (row : Pets) : ObjectGraph := { g with pets := g.pets ++ [row] }

def insertNumbersPhone (g : ObjectGraph) (row : NumbersPhone) : ObjectGraph :=
  { g with numbersPhone := g.numbersPhone ++ [row] }

def assignUsers (g : ObjectGraph) (usersEntity : Nat) (data : User) : ObjectGraph :=
  { g with users := g.users.modify usersEntity fun row => row.assign data }

def relatePets (g : ObjectGraph) (usersEntity petsEntity : Nat) : ObjectGraph :=
  let ends := OneToOne.relate Users.petsEnd Pets.userEnd usersEntity petsEntity g.users g.pets
  { g with users := ends.1, pets := ends.2 }

def relatePhoneNumbers (g : ObjectGraph) (usersEntity numbersEntity : Nat) : ObjectGraph :=
  let ends := OneToOne.relate Users.phoneNumbersEnd NumbersPhone.userEnd usersEntity numbersEntity
    g.users g.numbersPhone
  { g with users := ends.1, numbersPhone := ends.2 }

def petsOf (g : ObjectGraph) (usersEntity : Nat) : Option Nat :=
  OneToOne.link Users.petsEnd g.users usersEntity

def phoneNumbersOf (g : ObjectGraph) (usersEntity : Nat) : Option Nat :=
  OneToOne.link Users.phoneNumbersEnd g.users usersEntity

@[simp] theorem petsOf_assignUsers (g : ObjectGraph) (i : Nat) (data : User) (k : Nat) :
    (g.assignUsers i data).petsOf k = g.petsOf k :=
  OneToOne.link_modify_other Users.petsEnd (h := fun row => row.assign data) (fun _ => rfl) g.users i k

@[simp] theorem phoneNumbersOf_assignUsers (g : ObjectGraph) (i : Nat) (data : User) (k : Nat) :
    (g.assignUsers i data).phoneNumbersOf k = g.phoneNumbersOf k :=
  OneToOne.link_modify_other Users.phoneNumbersEnd (h := fun row => row.assign data) (fun _ => rfl)
    g.users i k

@[simp] theorem petsOf_relatePhoneNumbers (g : ObjectGraph) (i j k : Nat) :
    (g.relatePhoneNumbers i j).petsOf k = g.petsOf k :=
  OneToOne.link_relate_other Users.petsEnd (h := Users.phoneNumbersEnd) (fun _ _ => rfl)
    NumbersPhone.userEnd i j g.users g.numbersPhone k

@[simp] theorem phoneNumbersOf_relatePets (g : ObjectGraph) (i j k : Nat) :
    (g.relatePets i j).phoneNumbersOf k = g.phoneNumbersOf k :=
  OneToOne.link_relate_other Users.phoneNumbersEnd (h := Users.petsEnd) (fun _ _ => rfl)
    Pets.userEnd i j g.users g.pets k

theorem relatePets_inserted {g : ObjectGraph} {i : Nat} {row : Pets} (hu : row.user = none)
    (hold : ∀ l, g.petsOf i = some l → l < g.pets.length) :
    (g.insertPets row).relatePets i g.pets.length =
      { g with
        users := g.users.modify i (Users.petsEnd.set (some g.pets.length))
        pets := OneToOne.unlink Pets.userEnd g.pets (g.petsOf i) ++ [{ row with user := some i }] } := by
  have h := OneToOne.relate_inserted (f := Users.petsEnd) (g := Pets.userEnd) (b := row) hu hold
  simp only [relatePets, insertPets, h]
  rfl

theorem relatePhoneNumbers_inserted {g : ObjectGraph} {i : Nat} {row : NumbersPhone}
    (hu : row.user = none) (hold : ∀ l, g.phoneNumbersOf i = some l → l < g.numbersPhone.length) :
    (g.insertNumbersPhone row).relatePhoneNumbers i g.numbersPhone.length =
      { g with
        users := g.users.modify i (Users.phoneNumbersEnd.set (some g.numbersPhone.length))
        numbersPhone := OneToOne.unlink NumbersPhone.userEnd g.numbersPhone (g.phoneNumbersOf i) ++
          [{ row with user := some i }] } := by
  have h := OneToOne.relate_inserted (f := Users.phoneNumbersEnd) (g := NumbersPhone.userEnd)
    (b := row) hu hold
  simp only [relatePhoneNumbers, insertNumbersPhone, h]
  rfl

structure Mirrored (g : ObjectGraph) : Prop where
  pets : OneToOne.Mirrored Users.petsEnd Pets.userEnd g.users g.pets
  phoneNumbers : OneToOne.Mirrored Users.phoneNumbersEnd NumbersPhone.userEnd g.users g.numbersPhone

namespace Mirrored

theorem empty : Mirrored {} := by
  constructor <;> intro i j <;> simp [OneToOne.link]

theorem insertUsers {g : ObjectGraph} (h : g.Mirrored) {row : Users} (hp : row.pets = none)
    (hn : row.phoneNumbers = none) : (g.insertUsers row).Mirrored :=
  ⟨h.pets.insert hp, h.phoneNumbers.insert hn⟩

theorem insertPets {g : ObjectGraph} (h : g.Mirrored) {row : Pets} (hu : row.user = none) :
    (g.insertPets row).Mirrored :=
  ⟨(h.pets.symm.insert hu).symm, h.phoneNumbers⟩

theorem insertNumbersPhone {g : ObjectGraph} (h : g.Mirrored) {row : NumbersPhone}
    (hu : row.user = none) : (g.insertNumbersPhone row).Mirrored :=
  ⟨h.pets, (h.phoneNumbers.symm.insert hu).symm⟩

theorem assignUsers {g : ObjectGraph} (h : g.Mirrored) (i : Nat) (data : User) :
    (g.assignUsers i data).Mirrored :=
  ⟨h.pets.congr (g.petsOf_assignUsers i data), h.phoneNumbers.congr (g.phoneNumbersOf_assignUsers i data)⟩

theorem relatePets {g : ObjectGraph} (h : g.Mirrored) {i j : Nat} (hi : i < g.users.length)
    (hj : j < g.pets.length) : (g.relatePets i j).Mirrored :=
  ⟨OneToOne.relate_mirrored h.pets hi hj, h.phoneNumbers.congr (g.phoneNumbersOf_relatePets i j)⟩

theorem relatePhoneNumbers {g : ObjectGraph} (h : g.Mirrored) {i j : Nat} (hi : i < g.users.length)
    (hj : j < g.numbersPhone.length) : (g.relatePhoneNumbers i j).Mirrored :=
  ⟨h.pets.congr (g.petsOf_relatePhoneNumbers i j), OneToOne.relate_mirrored h.phoneNumbers hi hj⟩

end Mirrored

end ObjectGraph

end Reservation
