import Reservation.UserRoundTrip

/-! The representation invariant of the user store, over runs that mix the calls
of the two services in any order. -/

namespace Reservation

open ManagedObjects OneToOne

inductive SaveUser
  | serviceCoreData (user : List User)
  | serviceCoreDataOperation (user : List User)
  deriving DecidableEq

namespace SaveUser

def run (context : Context ObjectGraph) : SaveUser → Context ObjectGraph
  | serviceCoreData user => (ServiceCoreData.saveUser user none context).1
  | serviceCoreDataOperation user => (ServiceCoreDataOperation.saveUser user none context).1

def insert (g : ObjectGraph) : SaveUser → ObjectGraph
  | serviceCoreData user => ServiceCoreData.insertUser user g
  | serviceCoreDataOperation user => ServiceCoreDataOperation.insertUser user g

theorem registered_run (context : Context ObjectGraph) (call : SaveUser) :
    (call.run context).registered = call.insert context.registered := by
  cases call <;> rfl

def One : SaveUser → Prop
  | serviceCoreData user => user.length = 1
  | serviceCoreDataOperation _ => True

end SaveUser

def userStore (calls : List SaveUser) : Context ObjectGraph := calls.foldl SaveUser.run (.opened {})

theorem userStore_snoc (calls : List SaveUser) (call : SaveUser) :
    userStore (calls ++ [call]) = call.run (userStore calls) := List.foldl_concat ..

namespace ObjectGraph

structure Represents (g : ObjectGraph) : Prop where
  users : ∀ row ∈ g.users,
    row.firstName.isSome ∧ row.lastName.isSome ∧ row.country.isSome ∧ row.city.isSome
  pets : ∀ row ∈ g.pets, row.name.isSome ∧ row.color.isSome
  petsPaired : Paired Users.petsEnd Pets.userEnd g.users g.pets
  phoneNumbersPaired : Paired Users.phoneNumbersEnd NumbersPhone.userEnd g.users g.numbersPhone

/-- What is left of `Represents` when the ends agree: no optional of a row is `nil`. -/
structure Whole (g : ObjectGraph) : Prop where
  users : ∀ row ∈ g.users, (row.firstName.isSome ∧ row.lastName.isSome ∧ row.country.isSome ∧
    row.city.isSome) ∧ row.pets.isSome ∧ row.phoneNumbers.isSome
  pets : ∀ row ∈ g.pets, (row.name.isSome ∧ row.color.isSome) ∧ row.user.isSome
  numbersPhone : ∀ row ∈ g.numbersPhone, row.user.isSome

theorem Mirrored.leave {g : ObjectGraph} (h : g.Mirrored) (user : List User) : (g.leave user).Mirrored := by
  induction user using List.reverseRecOn with
  | nil => exact g.leave_nil.symm ▸ h
  | append_singleton user data ih =>
    have hpets : ((g.leave user).insertPets (data.petsRow none)).Mirrored := ih.insertPets rfl
    have hphones := hpets.insertNumbersPhone (show (data.numbersRow none).user = none from rfl)
    rw [leave_append]
    exact hphones

theorem Mirrored.add {g : ObjectGraph} (h : g.Mirrored) (data : User) : (g.add data).Mirrored := by
  rw [← assign_inserted]
  apply (h.insertUsers rfl rfl).assign
  rw [ObjectGraph.insertUsers, List.length_append]
  exact Nat.lt_succ_self _

theorem Mirrored.foldl_add {g : ObjectGraph} (h : g.Mirrored) (user : List User) :
    (user.foldl ObjectGraph.add g).Mirrored := by
  induction user generalizing g with
  | nil => exact h
  | cons data user ih => exact ih (h.add data)

theorem whole_add_iff (g : ObjectGraph) (data : User) : (g.add data).Whole ↔ g.Whole := by
  constructor
  · intro h
    exact ⟨fun row hrow => h.users row (List.mem_append_left _ hrow),
      fun row hrow => h.pets row (List.mem_append_left _ hrow),
      fun row hrow => h.numbersPhone row (List.mem_append_left _ hrow)⟩
  · intro h
    refine ⟨?_, ?_, ?_⟩
    · exact List.forall_mem_append.mpr ⟨h.users, by simp [User.usersRow, Users.assign]⟩
    · exact List.forall_mem_append.mpr ⟨h.pets, by simp [User.petsRow, Pets.assign]⟩
    · exact List.forall_mem_append.mpr ⟨h.numbersPhone, by simp [User.numbersRow]⟩

theorem whole_leave_iff (g : ObjectGraph) (user : List User) :
    (g.leave user).Whole ↔ g.Whole ∧ user = [] := by
  constructor
  · intro h
    have hpets := List.forall_mem_append.mp h.pets
    have hnumbers := List.forall_mem_append.mp h.numbersPhone
    refine ⟨⟨h.users, hpets.1, hnumbers.1⟩, ?_⟩
    apply List.eq_nil_iff_forall_not_mem.mpr
    intro data hdata
    have hrow := hpets.2 (data.petsRow none) (List.mem_map_of_mem hdata)
    simp [User.petsRow] at hrow
  · rintro ⟨h, rfl⟩
    exact g.leave_nil.symm ▸ h

theorem not_whole_insertUsers (g : ObjectGraph) : ¬(g.insertUsers {}).Whole := by
  intro h
  have hrow := h.users {} (List.mem_append_right _ (List.mem_singleton_self _))
  simp at hrow

end ObjectGraph

namespace SaveUser

theorem insert_mirrored {g : ObjectGraph} (h : g.Mirrored) (call : SaveUser) : (call.insert g).Mirrored := by
  cases call with
  | serviceCoreData user =>
    rcases List.eq_nil_or_concat user with rfl | ⟨init, data, rfl⟩
    · exact h.insertUsers rfl rfl
    · rw [insert, List.concat_eq_append, ServiceCoreData.insertUser_snoc]
      exact (h.leave init).add data
  | serviceCoreDataOperation user =>
    rw [insert, ServiceCoreDataOperation.insertUser_eq]
    exact h.foldl_add user

theorem insert_whole_iff (g : ObjectGraph) (call : SaveUser) :
    (call.insert g).Whole ↔ g.Whole ∧ call.One := by
  cases call with
  | serviceCoreData user =>
    rcases List.eq_nil_or_concat user with rfl | ⟨init, data, rfl⟩
    · exact iff_of_false g.not_whole_insertUsers (by simp [One])
    · rw [insert, List.concat_eq_append, ServiceCoreData.insertUser_snoc, ObjectGraph.whole_add_iff,
        ObjectGraph.whole_leave_iff]
      simp [One]
  | serviceCoreDataOperation user =>
    rw [insert, ServiceCoreDataOperation.insertUser_eq]
    have hfold : (user.foldl ObjectGraph.add g).Whole ↔ g.Whole := by
      induction user generalizing g with
      | nil => rfl
      | cons data user ih => rw [List.foldl_cons, ih, ObjectGraph.whole_add_iff]
    simp [hfold, One]

end SaveUser

theorem userStore_mirrored (calls : List SaveUser) : (userStore calls).registered.Mirrored := by
  induction calls using List.reverseRecOn with
  | nil => exact .empty
  | append_singleton calls call ih =>
    rw [userStore_snoc, SaveUser.registered_run]
    exact call.insert_mirrored ih

theorem userStore_whole_iff (calls : List SaveUser) :
    (userStore calls).registered.Whole ↔ ∀ call ∈ calls, call.One := by
  induction calls using List.reverseRecOn with
  | nil =>
    have hempty : ObjectGraph.Whole {} := ⟨by simp, by simp, by simp⟩
    exact iff_of_true hempty (by simp)
  | append_singleton calls call ih =>
    rw [userStore_snoc, SaveUser.registered_run, SaveUser.insert_whole_iff, ih, List.forall_mem_append,
      List.forall_mem_singleton]

namespace ObjectGraph

theorem Mirrored.represents_iff {g : ObjectGraph} (h : g.Mirrored) : g.Represents ↔ g.Whole := by
  constructor
  · intro hr
    have hpets := h.pets.paired_iff.mp hr.petsPaired
    have hphones := h.phoneNumbers.paired_iff.mp hr.phoneNumbersPaired
    exact ⟨fun row hrow => ⟨hr.users row hrow, hpets.1 row hrow, hphones.1 row hrow⟩,
      fun row hrow => ⟨hr.pets row hrow, hpets.2 row hrow⟩, hphones.2⟩
  · intro hw
    exact ⟨fun row hrow => (hw.users row hrow).1, fun row hrow => (hw.pets row hrow).1,
      h.pets.paired_iff.mpr ⟨fun row hrow => (hw.users row hrow).2.1, fun row hrow => (hw.pets row hrow).2⟩,
      h.phoneNumbers.paired_iff.mpr ⟨fun row hrow => (hw.users row hrow).2.2, hw.numbersPhone⟩⟩

theorem Whole.complete {g : ObjectGraph} (hw : g.Whole) (h : g.Mirrored) : g.Complete := by
  intro row hrow
  obtain ⟨i, hi, hget⟩ := List.getElem_of_mem hrow
  obtain ⟨⟨hfirst, hlast, hcountry, hcity⟩, hpets, hphones⟩ := hw.users row hrow
  obtain ⟨p, hp⟩ := Option.isSome_iff_exists.mp hpets
  obtain ⟨n, hn⟩ := Option.isSome_iff_exists.mp hphones
  have hrow' : g.users[i]? = some row := by rw [List.getElem?_eq_getElem hi, hget]
  have hlinkPets : link Users.petsEnd g.users i = some p := by
    rw [link, hrow']
    exact hp
  have hlinkPhones : link Users.phoneNumbersEnd g.users i = some n := by
    rw [link, hrow']
    exact hn
  have hpets' := List.getElem?_eq_getElem (h.pets.lt hlinkPets)
  have hphones' := List.getElem?_eq_getElem (h.phoneNumbers.lt hlinkPhones)
  obtain ⟨⟨hname, hcolor⟩, _⟩ := hw.pets _ (List.getElem_mem (h.pets.lt hlinkPets))
  obtain ⟨firstName, hfirst⟩ := Option.isSome_iff_exists.mp hfirst
  obtain ⟨lastName, hlast⟩ := Option.isSome_iff_exists.mp hlast
  obtain ⟨country, hcountry⟩ := Option.isSome_iff_exists.mp hcountry
  obtain ⟨city, hcity⟩ := Option.isSome_iff_exists.mp hcity
  obtain ⟨name, hname⟩ := Option.isSome_iff_exists.mp hname
  obtain ⟨color, hcolor⟩ := Option.isSome_iff_exists.mp hcolor
  simp [user, hp, hn, hpets', hphones', hfirst, hlast, hcountry, hcity, hname, hcolor]

end ObjectGraph

def ReadsSafely (context : Context ObjectGraph) : Prop :=
  ∀ (order : FetchOrder Users) (error : Option NSError),
    (ServiceCoreData.readUser order error context).isSome ∧
      (ServiceCoreDataOperation.readUser order error context).isSome

theorem readsSafely_of_complete {context : Context ObjectGraph} (hc : context.registered.Complete) :
    ReadsSafely context := by
  intro order error
  cases error with
  | some error => exact ⟨rfl, rfl⟩
  | none =>
    obtain ⟨users, hread⟩ := hc.read order
    rw [ServiceCoreData.readUser_next_iff.mpr hread, ServiceCoreDataOperation.readUser_ok_iff.mpr hread]
    exact ⟨rfl, rfl⟩

theorem userStore_represents_iff (calls : List SaveUser) :
    (userStore calls).registered.Represents ∧ ReadsSafely (userStore calls) ↔
      ∀ call ∈ calls, call.One := by
  have hm := userStore_mirrored calls
  rw [← userStore_whole_iff, ← hm.represents_iff]
  constructor
  · intro h
    exact h.1
  · intro h
    exact ⟨h, readsSafely_of_complete ((hm.represents_iff.mp h).complete hm)⟩

theorem nameless_row_of_empty_save :
    ¬ ∀ calls, (userStore calls).registered.Represents ∧ ReadsSafely (userStore calls) := by
  intro h
  have hnames := (h [.serviceCoreData []]).1.users {} (by decide)
  exact absurd hnames.1 (by decide)

end Reservation
