import Reservation.StoreHistory

/-! How many rows the saves of users make, and how many of these no read ever
reaches again. -/

namespace Reservation

open ManagedObjects

namespace SaveUser

def user : SaveUser → List User
  | serviceCoreData user => user
  | serviceCoreDataOperation user => user

/-- The rows of `Users` that a call inserts. -/
def rows : SaveUser → Nat
  | serviceCoreData _ => 1
  | serviceCoreDataOperation user => user.length

/-- The pets, and the pairs of numbers, that a call takes away from their user. -/
def orphans : SaveUser → Nat
  | serviceCoreData user => user.length - 1
  | serviceCoreDataOperation _ => 0

end SaveUser

/-- So many rows of each of the three entities, and so many without a user. -/
structure ObjectGraph.Counts (g : ObjectGraph) (users related orphans : Nat) : Prop where
  users : g.users.length = users
  pets : g.pets.length = related
  numbersPhone : g.numbersPhone.length = related
  orphanPets : g.pets.countP (·.user.isNone) = orphans
  orphanNumbersPhone : g.numbersPhone.countP (·.user.isNone) = orphans

namespace ObjectGraph.Counts

variable {g : ObjectGraph} {users related orphans : Nat}

theorem add (h : g.Counts users related orphans) (data : User) :
    (g.add data).Counts (users + 1) (related + 1) orphans := by
  constructor
  · simp [ObjectGraph.add, h.users]
  · rw [add_pets_length, h.pets]
  · rw [add_numbersPhone_length, h.numbersPhone]
  · simp [ObjectGraph.add, User.petsRow, h.orphanPets]
  · simp [ObjectGraph.add, User.numbersRow, h.orphanNumbersPhone]

theorem foldl_add (h : g.Counts users related orphans) (user : List User) :
    (user.foldl ObjectGraph.add g).Counts (users + user.length) (related + user.length) orphans := by
  induction user generalizing g users related with
  | nil => exact h
  | cons data user ih =>
    have hrest := ih (h.add data)
    rw [List.foldl_cons, List.length_cons, Nat.add_comm user.length, ← Nat.add_assoc, ← Nat.add_assoc]
    exact hrest

theorem leave (h : g.Counts users related orphans) (user : List User) :
    (g.leave user).Counts users (related + user.length) (orphans + user.length) := by
  have hpets : (user.map (·.petsRow none)).countP (·.user.isNone) = user.length := by
    rw [List.countP_map]
    exact List.countP_eq_length.mpr fun _ _ => rfl
  have hnumbers : (user.map (·.numbersRow none)).countP (·.user.isNone) = user.length := by
    rw [List.countP_map]
    exact List.countP_eq_length.mpr fun _ _ => rfl
  constructor
  · exact h.users
  · rw [ObjectGraph.leave, List.length_append, List.length_map, h.pets]
  · rw [ObjectGraph.leave, List.length_append, List.length_map, h.numbersPhone]
  · rw [ObjectGraph.leave, List.countP_append, h.orphanPets, hpets]
  · rw [ObjectGraph.leave, List.countP_append, h.orphanNumbersPhone, hnumbers]

theorem insert (h : g.Counts users related orphans) (call : SaveUser) :
    (call.insert g).Counts (users + call.rows) (related + call.user.length) (orphans + call.orphans) := by
  cases call with
  | serviceCoreData user =>
    rcases List.eq_nil_or_concat user with rfl | ⟨init, data, rfl⟩
    · exact ⟨by simp [SaveUser.insert, ServiceCoreData.insertUser_nil, ObjectGraph.insertUsers, h.users,
        SaveUser.rows], h.pets, h.numbersPhone, h.orphanPets, h.orphanNumbersPhone⟩
    · have hadd := (h.leave init).add data
      rw [SaveUser.insert, List.concat_eq_append, ServiceCoreData.insertUser_snoc]
      simpa [SaveUser.rows, SaveUser.user, SaveUser.orphans, Nat.add_assoc] using hadd
  | serviceCoreDataOperation user =>
    rw [SaveUser.insert, ServiceCoreDataOperation.insertUser_eq]
    exact h.foldl_add user

theorem congr {g' : ObjectGraph} (h : g.Counts users related orphans) (husers : g'.users = g.users)
    (hpets : g'.pets = g.pets) (hnumbers : g'.numbersPhone = g.numbersPhone) :
    g'.Counts users related orphans :=
  ⟨husers ▸ h.users, hpets ▸ h.pets, hnumbers ▸ h.numbersPhone, hpets ▸ h.orphanPets,
    hnumbers ▸ h.orphanNumbersPhone⟩

end ObjectGraph.Counts

def StoreCall.saveUsers : StoreCall → List SaveUser
  | saveUser call => [call]
  | _ => []

/-- The sum of a number over the calls for users. -/
def StoreCall.total (number : SaveUser → Nat) (calls : List StoreCall) : Nat :=
  (calls.flatMap StoreCall.saveUsers).foldl (fun sum call => sum + number call) 0

theorem StoreCall.total_snoc (number : SaveUser → Nat) (calls : List StoreCall) (call : StoreCall) :
    total number (calls ++ [call]) =
      call.saveUsers.foldl (fun sum call => sum + number call) (total number calls) := by
  rw [total, List.flatMap_append, List.flatMap_singleton, List.foldl_append, total]

theorem StoreCall.total_mono (number : SaveUser → Nat) {calls later : List StoreCall} (h : calls <+: later) :
    total number calls ≤ total number later := by
  obtain ⟨more, rfl⟩ := h
  induction more using List.reverseRecOn with
  | nil => rw [List.append_nil]
  | append_singleton more call ih =>
    rw [← List.append_assoc, total_snoc]
    cases call with
    | saveUser call => exact Nat.le_trans ih (Nat.le_add_right _ _)
    | _ => exact ih

theorem replayed_counts (calls : List StoreCall) :
    (replayed calls).Counts (StoreCall.total SaveUser.rows calls)
      (StoreCall.total (fun call => call.user.length) calls) (StoreCall.total SaveUser.orphans calls) := by
  induction calls using List.reverseRecOn with
  | nil => exact ⟨rfl, rfl, rfl, rfl, rfl⟩
  | append_singleton calls call ih =>
    simp only [replayed_snoc, StoreCall.total_snoc]
    cases call with
    | saveUser call => simpa [StoreCall.saveUsers, StoreCall.edit] using ih.insert call
    | _ => exact ih.congr rfl rfl rfl

/-- No fewer rows of any of the three entities, and no fewer without a user. -/
structure ObjectGraph.Grown (g later : ObjectGraph) : Prop where
  users : g.users.length ≤ later.users.length
  pets : g.pets.length ≤ later.pets.length
  numbersPhone : g.numbersPhone.length ≤ later.numbersPhone.length
  orphanPets : g.pets.countP (·.user.isNone) ≤ later.pets.countP (·.user.isNone)
  orphanNumbersPhone : g.numbersPhone.countP (·.user.isNone) ≤ later.numbersPhone.countP (·.user.isNone)

theorem replayed_grown {calls later : List StoreCall} (h : calls <+: later) :
    (replayed calls).Grown (replayed later) := by
  have hcounts := replayed_counts calls
  have hlater := replayed_counts later
  constructor
  · rw [hcounts.users, hlater.users]
    exact StoreCall.total_mono _ h
  · rw [hcounts.pets, hlater.pets]
    exact StoreCall.total_mono _ h
  · rw [hcounts.numbersPhone, hlater.numbersPhone]
    exact StoreCall.total_mono _ h
  · rw [hcounts.orphanPets, hlater.orphanPets]
    exact StoreCall.total_mono _ h
  · rw [hcounts.orphanNumbersPhone, hlater.orphanNumbersPhone]
    exact StoreCall.total_mono _ h

/-- Over every history of saves, of errors of `context.save` and of launches, the
calls of `ServiceCoreData.saveUser` that last leave behind all but one of the pets
and of the pairs of numbers they are given, and nothing that happens later takes
these rows out of the store. -/
theorem orphans_pile_up (events : List StoreEvent) : ∃ context, launches events = some context ∧
    context.registered.Counts (StoreCall.total SaveUser.rows (ContextEvent.registered events))
      (StoreCall.total (fun call => call.user.length) (ContextEvent.registered events))
      (StoreCall.total SaveUser.orphans (ContextEvent.registered events)) ∧
    context.persisted.Counts (StoreCall.total SaveUser.rows (ContextEvent.persisted events))
      (StoreCall.total (fun call => call.user.length) (ContextEvent.persisted events))
      (StoreCall.total SaveUser.orphans (ContextEvent.persisted events)) ∧
    ∀ more, ∃ later, launches (events ++ more) = some later ∧ context.persisted.Grown later.persisted :=
  ⟨_, launches_eq events, replayed_counts _, replayed_counts _, fun more =>
    ⟨_, launches_eq (events ++ more), replayed_grown (ContextEvent.persisted_prefix events more)⟩⟩

end Reservation
