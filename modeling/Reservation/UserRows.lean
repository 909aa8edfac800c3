import Reservation.UserStore
import Mathlib.Data.List.Induction

/-! The rows that a save adds, and the users that the rows of a graph decode to.
A round of the loop over a row that already has partners leaves them behind. -/

namespace Reservation

open ManagedObjects OneToOne

namespace ObjectGraph

def add (g : ObjectGraph) (data : User) : ObjectGraph :=
  { g with
    users := g.users ++ [data.usersRow g.pets.length g.numbersPhone.length]
    pets := g.pets ++ [data.petsRow (some g.users.length)]
    numbersPhone := g.numbersPhone ++ [data.numbersRow (some g.users.length)] }

theorem add_pets_length (g : ObjectGraph) (data : User) : (g.add data).pets.length = g.pets.length + 1 := by
  rw [add, List.length_append, List.length_singleton]

theorem add_numbersPhone_length (g : ObjectGraph) (data : User) :
    (g.add data).numbersPhone.length = g.numbersPhone.length + 1 := by
  rw [add, List.length_append, List.length_singleton]

/-- Rows of `Pets` and `NumbersPhone` that no user is linked to. -/
def leave (g : ObjectGraph) (user : List User) : ObjectGraph :=
  { g with
    pets := g.pets ++ user.map (·.petsRow none)
    numbersPhone := g.numbersPhone ++ user.map (·.numbersRow none) }

theorem leave_nil (g : ObjectGraph) : g.leave [] = g := by
  simp only [leave, List.map_nil, List.append_nil]

theorem leave_append (g : ObjectGraph) (user more : List User) :
    g.leave (user ++ more) = (g.leave user).leave more := by
  simp only [leave, List.map_append, List.append_assoc]

theorem assign_inserted (g : ObjectGraph) (data : User) :
    (g.insertUsers {}).assign g.users.length data = g.add data := by
  have hp : (g.insertUsers {}).petsOf g.users.length = none := by
    simp [petsOf, insertUsers, link, Users.petsEnd]
  have hn : (g.insertUsers {}).phoneNumbersOf g.users.length = none := by
    simp [phoneNumbersOf, insertUsers, link, Users.phoneNumbersEnd]
  rw [assign_eq (by simp [hp]) (by simp [hn]), hp, hn]
  simp only [insertUsers, modify_snoc, unlink, add]

theorem assign_again (g : ObjectGraph) (first data : User) :
    (g.add first).assign g.users.length data = (g.leave [first]).add data := by
  have hp : (g.add first).petsOf g.users.length = some g.pets.length := by
    simp [petsOf, add, link, Users.petsEnd, User.usersRow]
  have hn : (g.add first).phoneNumbersOf g.users.length = some g.numbersPhone.length := by
    simp [phoneNumbersOf, add, link, Users.phoneNumbersEnd, User.usersRow]
  have hpets : ∀ l, (g.add first).petsOf g.users.length = some l → l < (g.add first).pets.length := by
    simp [hp, add_pets_length]
  have hphones : ∀ l, (g.add first).phoneNumbersOf g.users.length = some l →
      l < (g.add first).numbersPhone.length := by
    simp [hn, add_numbersPhone_length]
  rw [assign_eq hpets hphones, hp, hn]
  simp only [add, leave, modify_snoc, unlink_snoc, List.length_append, List.map_cons, List.map_nil,
    List.length_cons, List.length_nil]
  rfl

end ObjectGraph

theorem ServiceCoreDataOperation.insertUser_eq (user : List User) (g : ObjectGraph) :
    insertUser user g = user.foldl ObjectGraph.add g := by
  simp only [insertUser, ObjectGraph.assign_inserted]

theorem ServiceCoreData.insertUser_nil (g : ObjectGraph) : insertUser [] g = g.insertUsers {} := rfl

/-- Only the last user of the list keeps its rows linked. -/
theorem ServiceCoreData.insertUser_snoc (user : List User) (data : User) (g : ObjectGraph) :
    insertUser (user ++ [data]) g = (g.leave user).add data := by
  induction user using List.reverseRecOn generalizing data with
  | nil =>
    rw [g.leave_nil]
    exact g.assign_inserted data
  | append_singleton user first ih =>
    have hround : insertUser (user ++ [first] ++ [data]) g =
        (insertUser (user ++ [first]) g).assign g.users.length data := by
      simp only [insertUser, List.foldl_append, List.foldl_cons, List.foldl_nil]
    rw [hround, ih, g.leave_append]
    exact (g.leave user).assign_again first data

namespace ObjectGraph

theorem getElem?_of_prefix {α : Type} {l l' : List α} {i : Nat} {a : α} (h : l <+: l')
    (ha : l[i]? = some a) : l'[i]? = some a := by
  obtain ⟨more, rfl⟩ := h
  rw [List.getElem?_append_left (List.getElem?_eq_some_iff.mp ha).1]
  exact ha

theorem user_mono {g g' : ObjectGraph} {row : Users} {data : User} (hp : g.pets <+: g'.pets)
    (hn : g.numbersPhone <+: g'.numbersPhone) (h : g.user row = some data) :
    g'.user row = some data := by
  cases hpets : row.pets.bind (g.pets[·]?) with
  | none => simp [user, hpets] at h
  | some pets =>
    cases hphones : row.phoneNumbers.bind (g.numbersPhone[·]?) with
    | none => simp [user, hphones] at h
    | some phones =>
      obtain ⟨p, hrow, hget⟩ := Option.bind_eq_some_iff.mp hpets
      obtain ⟨n, hrow', hget'⟩ := Option.bind_eq_some_iff.mp hphones
      have hpets' : row.pets.bind (g'.pets[·]?) = some pets := by
        rw [hrow]
        exact getElem?_of_prefix hp hget
      have hphones' : row.phoneNumbers.bind (g'.numbersPhone[·]?) = some phones := by
        rw [hrow']
        exact getElem?_of_prefix hn hget'
      simp only [user, hpets, hphones] at h
      simp only [user, hpets', hphones']
      exact h

theorem firstName_of_user {g : ObjectGraph} {row : Users} (h : (g.user row).isSome) :
    row.firstName.isSome := by
  cases hname : row.firstName with
  | none => simp [user, hname] at h
  | some name => rfl

def contents (g : ObjectGraph) : List User := g.users.filterMap g.user

def Complete (g : ObjectGraph) : Prop := ∀ row ∈ g.users, (g.user row).isSome

theorem user_added (g : ObjectGraph) (data : User) :
    (g.add data).user (data.usersRow g.pets.length g.numbersPhone.length) = some data.stored := by
  simp [user, add, User.usersRow, User.petsRow, User.numbersRow, User.stored, Users.assign, Pets.assign,
    NumbersPhone.foldl_assign, NumbersPhone.assign]

theorem Complete.user_eq {g g' : ObjectGraph} (hc : g.Complete) (hp : g.pets <+: g'.pets)
    (hn : g.numbersPhone <+: g'.numbersPhone) {row : Users} (hrow : row ∈ g.users) :
    g'.user row = g.user row := by
  obtain ⟨data, hdata⟩ := Option.isSome_iff_exists.mp (hc row hrow)
  rw [hdata]
  exact user_mono hp hn hdata

theorem Complete.extended {g : ObjectGraph} (hc : g.Complete) (g' : ObjectGraph) (rows : List Users)
    (hu : g'.users = g.users ++ rows) (hp : g.pets <+: g'.pets) (hn : g.numbersPhone <+: g'.numbersPhone) :
    g'.contents = g.contents ++ rows.filterMap g'.user ∧
      (g'.Complete ↔ ∀ row ∈ rows, (g'.user row).isSome) := by
  constructor
  · rw [contents, hu, List.filterMap_append, contents]
    congr 1
    exact List.filterMap_congr fun row hrow => hc.user_eq hp hn hrow
  · rw [Complete, hu]
    constructor
    · intro h row hrow
      exact h row (List.mem_append_right _ hrow)
    · intro h row hrow
      rcases List.mem_append.mp hrow with hold | hnew
      · rw [hc.user_eq hp hn hold]
        exact hc row hold
      · exact h row hnew

theorem Complete.leave {g : ObjectGraph} (hc : g.Complete) (user : List User) :
    (g.leave user).Complete ∧ (g.leave user).contents = g.contents := by
  have h := hc.extended (g.leave user) [] (by simp [ObjectGraph.leave])
    (List.prefix_append _ _) (List.prefix_append _ _)
  constructor
  · simpa using h.2
  · simpa using h.1

theorem Complete.add {g : ObjectGraph} (hc : g.Complete) (data : User) :
    (g.add data).Complete ∧ (g.add data).contents = g.contents ++ [data.stored] := by
  have h := hc.extended (g.add data) [data.usersRow g.pets.length g.numbersPhone.length] rfl
    (List.prefix_append _ _) (List.prefix_append _ _)
  constructor
  · simpa [g.user_added] using h.2
  · simpa [g.user_added] using h.1

theorem Complete.foldl_add {g : ObjectGraph} (hc : g.Complete) (user : List User) :
    (user.foldl ObjectGraph.add g).Complete ∧
      (user.foldl ObjectGraph.add g).contents = g.contents ++ user.map User.stored := by
  induction user generalizing g with
  | nil => simpa using hc
  | cons data user ih =>
    have hadd := hc.add data
    have htail := ih hadd.1
    constructor
    · exact htail.1
    · rw [List.foldl_cons, htail.2, hadd.2, List.map_cons, List.append_assoc, List.singleton_append]

end ObjectGraph

end Reservation
