import Reservation.DataModel
import Reservation.Errors
import Reservation.RxOperators

/-! `saveUser` and `readUser` of `ServiceCoreData` and `ServiceCoreDataOperation`,
and what they make of the object graph. An `Option` around a result is `none`
where a force unwrap traps. -/

namespace Reservation

open ManagedObjects OneToOne

namespace ObjectGraph

/-- One round of `user.forEach`, after `usersEntity` is at hand. The two services
write it alike. -/
def assign (usersEntity : Nat) (g : ObjectGraph) (data : User) : ObjectGraph :=
  let g := g.assignUsers usersEntity data
  let petsEntity := g.pets.length
  let g := g.insertPets (({} : Pets).assign data.pet)
  let g := g.relatePets usersEntity petsEntity
  let numbersEntity := g.numbersPhone.length
  let g := g.insertNumbersPhone (data.numbers.foldl NumbersPhone.assign {})
  g.relatePhoneNumbers usersEntity numbersEntity

/-- The closure that `readUser` maps the fetched rows with, in both services. -/
def user (g : ObjectGraph) (data : Users) : Option User := do
  let pets := data.pets.bind (g.pets[·]?)
  let phoneNumbers := data.phoneNumbers.bind (g.numbersPhone[·]?)
  return {
    firstName := ← data.firstName
    lastName := ← data.lastName
    country := ← data.country
    city := ← data.city
    yearOfBrith := data.yearOfBrith
    pet := ⟨← pets.bind (·.name), ← pets.bind (·.color), ← pets.map (·.legs), ← pets.map (·.eye)⟩
    numbers := [⟨← phoneNumbers.map (·.personalNumber), ← phoneNumbers.map (·.homeNumber)⟩] }

end ObjectGraph

namespace ServiceCoreData

def insertUser (user : List User) (g : ObjectGraph) : ObjectGraph :=
  -- the one `usersEntity` is inserted before the loop
  user.foldl (ObjectGraph.assign g.users.length) (g.insertUsers {})

def saveUser (user : List User) (error : Option NSError) (context : Context ObjectGraph) :
    Context ObjectGraph × List (Rx.Event NSError Unit) :=
  let context := context.edit (insertUser user)
  match context.save error with
  | .ok context => (context, [.next (), .completed])
  | .error error => (context, [.error error])

def readUser (order : FetchOrder Users) (error : Option NSError) (context : Context ObjectGraph) :
    Option (List (Rx.Event NSError (List User))) :=
  match fetch order context.registered.users error with
  | .ok fetchData => do
    let userData ← fetchData.mapM context.registered.user
    return [.next userData, .completed]
  | .error error => some [.error error]

end ServiceCoreData

namespace ServiceCoreDataOperation

def insertUser (user : List User) (g : ObjectGraph) : ObjectGraph :=
  -- every round inserts a `userEntity` of its own
  user.foldl (fun g data => (g.insertUsers {}).assign g.users.length data) g

/-- The block of the operation, and what it prints. -/
def saveUser (user : List User) (error : Option NSError) (context : Context ObjectGraph) :
    Context ObjectGraph × Option EntityError :=
  let context := context.edit (insertUser user)
  match context.save error with
  | .ok context => (context, none)
  | .error _ => (context, some .entityNotFound)

/-- The argument of the closure, or the error printed in its place. -/
def readUser (order : FetchOrder Users) (error : Option NSError) (context : Context ObjectGraph) :
    Option (Except NSError (List User)) :=
  match fetch order context.registered.users error with
  | .ok fetchData => do
    let user ← fetchData.mapM context.registered.user
    return .ok user
  | .error error => some (.error error)

end ServiceCoreDataOperation

namespace User

def usersRow (data : User) (pets phoneNumbers : Nat) : Users :=
  { ({} : Users).assign data with pets := some pets, phoneNumbers := some phoneNumbers }

def petsRow (user : Option Nat) (data : User) : Pets :=
  { ({} : Pets).assign data.pet with user := user }

def numbersRow (user : Option Nat) (data : User) : NumbersPhone :=
  { data.numbers.foldl NumbersPhone.assign {} with user := user }

/-- What the rows keep of a user: one pair of numbers, the last. -/
def stored (data : User) : User := { data with numbers := [data.numbers.getLastD ⟨0, 0⟩] }

end User

theorem NumbersPhone.foldl_assign (row : NumbersPhone) (numbers : List User.Numbers) :
    numbers.foldl NumbersPhone.assign row =
      row.assign (numbers.getLastD ⟨row.personalNumber, row.homeNumber⟩) := by
  induction numbers generalizing row with
  | nil => rfl
  | cons number numbers ih =>
    rw [List.foldl_cons, ih, List.getLastD_cons]
    rfl

theorem NumbersPhone.foldl_assign_user (numbers : List User.Numbers) :
    (numbers.foldl NumbersPhone.assign {}).user = none := by
  rw [foldl_assign]
  rfl

namespace ObjectGraph

theorem assign_eq {g : ObjectGraph} {i : Nat} {data : User}
    (hpets : ∀ l, g.petsOf i = some l → l < g.pets.length)
    (hphones : ∀ l, g.phoneNumbersOf i = some l → l < g.numbersPhone.length) :
    g.assign i data =
      { g with
        users := g.users.modify i fun _ => data.usersRow g.pets.length g.numbersPhone.length
        pets := unlink Pets.userEnd g.pets (g.petsOf i) ++ [data.petsRow (some i)]
        numbersPhone := unlink NumbersPhone.userEnd g.numbersPhone (g.phoneNumbersOf i) ++
          [data.numbersRow (some i)] } := by
  have hnew := NumbersPhone.foldl_assign_user data.numbers
  have hpets' : ∀ l, (g.assignUsers i data).petsOf i = some l → l < g.pets.length := by
    rw [petsOf_assignUsers]
    exact hpets
  let petsEntity := ({} : Pets).assign data.pet
  let g' := ((g.assignUsers i data).insertPets petsEntity).relatePets i g.pets.length
  have hg' : g' =
      { g with
        users := (g.assignUsers i data).users.modify i (Users.petsEnd.set (some g.pets.length))
        pets := unlink Pets.userEnd g.pets (g.petsOf i) ++ [data.petsRow (some i)] } := by
    rw [← petsOf_assignUsers g i data i]
    exact relatePets_inserted (g := g.assignUsers i data) rfl hpets'
  have hphones' : g'.phoneNumbersOf i = g.phoneNumbersOf i := by
    rw [← phoneNumbersOf_assignUsers g i data i]
    exact phoneNumbersOf_relatePets ((g.assignUsers i data).insertPets petsEntity) i g.pets.length i
  have hlast := relatePhoneNumbers_inserted (g := g') (i := i) hnew (hphones'.symm ▸ hphones)
  change (g'.insertNumbersPhone (data.numbers.foldl NumbersPhone.assign {})).relatePhoneNumbers i
    g'.numbersPhone.length = _
  rw [hlast, hphones', hg']
  simp only [assignUsers, List.modify_modify_eq]
  rfl

theorem Mirrored.assign {g : ObjectGraph} (h : g.Mirrored) {i : Nat} (hi : i < g.users.length)
    (data : User) : (g.assign i data).Mirrored := by
  have hnew := NumbersPhone.foldl_assign_user data.numbers
  have hi' : i < (g.assignUsers i data).users.length := by
    simpa only [ObjectGraph.assignUsers, List.length_modify] using hi
  have hj : g.pets.length <
      ((g.assignUsers i data).insertPets (({} : Pets).assign data.pet)).pets.length := by
    simp [ObjectGraph.assignUsers, ObjectGraph.insertPets]
  have hinserted : ((g.assignUsers i data).insertPets (({} : Pets).assign data.pet)).Mirrored :=
    (h.assignUsers i data).insertPets rfl
  have hrelated := hinserted.relatePets hi' hj
  have hlen := OneToOne.relate_lengths Users.petsEnd Pets.userEnd i g.pets.length
    (g.assignUsers i data).users (g.pets ++ [({} : Pets).assign data.pet])
  apply (hrelated.insertNumbersPhone hnew).relatePhoneNumbers
  · exact hlen.1.symm ▸ hi'
  · rw [ObjectGraph.insertNumbersPhone, List.length_append]
    exact Nat.lt_succ_self _

end ObjectGraph

end Reservation
