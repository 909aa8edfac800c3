import Reservation.UserRows

/-! Saving a list of users and reading the store back, with either service. -/

namespace Reservation

open ManagedObjects

namespace ObjectGraph

theorem Complete.read {g : ObjectGraph} (hc : g.Complete) (order : FetchOrder Users) :
    ∃ users, (order.arrange g.users).mapM g.user = some users :=
  Option.isSome_iff_exists.mp ((fetched_isSome_iff order g.user g.users).mpr hc)

theorem complete_of_read {g : ObjectGraph} {order : FetchOrder Users} {users : List User}
    (h : (order.arrange g.users).mapM g.user = some users) : g.Complete := by
  apply (fetched_isSome_iff order g.user g.users).mp
  rw [h]
  rfl

theorem read_perm {g : ObjectGraph} {order : FetchOrder Users} {users : List User}
    (h : (order.arrange g.users).mapM g.user = some users) : users.Perm g.contents := fetched_perm h

end ObjectGraph

def User.ivan : User :=
  { firstName := "Иван", lastName := "Иванов", country := "Россия", city := "Москва", yearOfBrith := 1978
    pet := ⟨"собака", "коричневый", 4, 2⟩, numbers := [⟨228, 1488⟩] }

def User.vasya : User :=
  { firstName := "Вася", lastName := "Пупкин", country := "Россия", city := "Ульяновск", yearOfBrith := 2001
    pet := ⟨"попугай", "зеленый", 2, 2⟩, numbers := [⟨228, 1488⟩] }

theorem User.stored_eq {data : User} (h : data.numbers.length = 1) : data.stored = data := by
  obtain ⟨number, hn⟩ := List.length_eq_one_iff.mp h
  have hlast : [data.numbers.getLastD ⟨0, 0⟩] = data.numbers := by
    rw [hn]
    rfl
  rw [stored, hlast]

theorem User.map_stored_eq {user : List User} (h : ∀ data ∈ user, data.numbers.length = 1) :
    user.map User.stored = user := by
  rw [List.map_congr_left fun data hdata => stored_eq (h data hdata), List.map_id']

namespace ServiceCoreData

def saved (calls : List (List User)) : Context ObjectGraph :=
  calls.foldl (fun context user => (saveUser user none context).1) (.opened {})

/-- The read after the save emits what the read before it did and the list. -/
def RoundTrip (order order' : FetchOrder Users) (context : Context ObjectGraph) (user : List User) : Prop :=
  ∃ before after, readUser order none context = some [.next before, .completed] ∧
    readUser order' none (saveUser user none context).1 = some [.next after, .completed] ∧
    after.Perm (before ++ user)

theorem saved_snoc (calls : List (List User)) (user : List User) :
    saved (calls ++ [user]) = (saveUser user none (saved calls)).1 := List.foldl_concat ..

theorem registered_saveUser (user : List User) (context : Context ObjectGraph) :
    (saveUser user none context).1.registered = insertUser user context.registered := rfl

theorem readUser_next_iff {order : FetchOrder Users} {context : Context ObjectGraph} {users : List User} :
    readUser order none context = some [.next users, .completed] ↔
      (order.arrange context.registered.users).mapM context.registered.user = some users := by
  simp only [readUser, fetch]
  cases (order.arrange context.registered.users).mapM context.registered.user <;> simp

theorem users_insertUser (user : List User) (g : ObjectGraph) :
    ∃ row, (insertUser user g).users = g.users ++ [row] ∧ (row.firstName.isSome ↔ user ≠ []) := by
  rcases List.eq_nil_or_concat user with rfl | ⟨init, data, rfl⟩
  · exact ⟨{}, rfl, by simp⟩
  · rw [List.concat_eq_append, insertUser_snoc]
    exact ⟨data.usersRow _ _, rfl, by simp [User.usersRow, Users.assign]⟩

theorem named_saved_iff (calls : List (List User)) :
    (∀ row ∈ (saved calls).registered.users, row.firstName.isSome) ↔ ∀ user ∈ calls, user ≠ [] := by
  induction calls using List.reverseRecOn with
  | nil => simp [saved, Context.opened]
  | append_singleton calls user ih =>
    obtain ⟨row, hrow, hname⟩ := users_insertUser user (saved calls).registered
    rw [saved_snoc, registered_saveUser, hrow]
    simp only [List.forall_mem_append, List.forall_mem_singleton, ih, hname]

theorem complete_insertUser {g : ObjectGraph} (hc : g.Complete) (user : List User) (data : User) :
    (insertUser (user ++ [data]) g).Complete ∧
      (insertUser (user ++ [data]) g).contents = g.contents ++ [data.stored] := by
  have hleave := hc.leave user
  have hadd := hleave.1.add data
  rw [insertUser_snoc]
  exact ⟨hadd.1, by rw [hadd.2, hleave.2]⟩

theorem complete_saved_iff (calls : List (List User)) :
    (saved calls).registered.Complete ↔ ∀ user ∈ calls, user ≠ [] := by
  constructor
  · intro hc
    exact (named_saved_iff calls).mp fun row hrow => ObjectGraph.firstName_of_user (hc row hrow)
  · intro h
    induction calls using List.reverseRecOn with
    | nil => simp [saved, Context.opened, ObjectGraph.Complete]
    | append_singleton calls user ih =>
      have hcalls := ih fun earlier he => h earlier (List.mem_append_left _ he)
      obtain ⟨init, data, rfl⟩ := (List.eq_nil_or_concat user).resolve_left (h user (by simp))
      rw [saved_snoc, registered_saveUser, List.concat_eq_append]
      exact (complete_insertUser hcalls init data).1

theorem round_trip_iff {order order' : FetchOrder Users} {calls : List (List User)} {user : List User}
    (hnumbers : ∀ data ∈ user, data.numbers.length = 1) :
    RoundTrip order order' (saved calls) user ↔
      (∀ earlier ∈ calls, earlier ≠ []) ∧ user.length = 1 := by
  simp only [RoundTrip, readUser_next_iff, registered_saveUser, ← complete_saved_iff]
  constructor
  · rintro ⟨before, after, hbefore, hafter, hperm⟩
    have hc := ObjectGraph.complete_of_read hbefore
    have hc' := ObjectGraph.complete_of_read hafter
    refine ⟨hc, ?_⟩
    rcases List.eq_nil_or_concat user with rfl | ⟨init, data, rfl⟩
    · have hrow := hc' {} (by simp [insertUser_nil, ObjectGraph.insertUsers])
      exact absurd (ObjectGraph.firstName_of_user hrow) (by simp)
    · have hbefore' := (ObjectGraph.read_perm hbefore).length_eq
      have hafter' := (ObjectGraph.read_perm hafter).length_eq
      have hlength := hperm.length_eq
      rw [List.concat_eq_append, (complete_insertUser hc init data).2] at hafter'
      simp only [List.length_append, List.length_singleton] at hafter' hlength
      omega
  · rintro ⟨hc, hone⟩
    obtain ⟨data, rfl⟩ := List.length_eq_one_iff.mp hone
    have hsave := complete_insertUser hc [] data
    obtain ⟨before, hbefore⟩ := hc.read order
    obtain ⟨after, hafter⟩ := hsave.1.read order'
    refine ⟨before, after, hbefore, hafter, ?_⟩
    have hstored : data.stored = data := User.stored_eq (hnumbers data (by simp))
    have hperm : after.Perm (insertUser ([] ++ [data]) (saved calls).registered).contents :=
      ObjectGraph.read_perm hafter
    rw [hsave.2, hstored] at hperm
    exact hperm.trans ((ObjectGraph.read_perm hbefore).symm.append_right _)

theorem round_trip_of_one : RoundTrip .insertion .insertion (saved [[.ivan, .vasya]]) [.vasya] :=
  (round_trip_iff (by decide)).mpr (by decide)

theorem first_of_two_lost :
    ¬ ∀ (order order' : FetchOrder Users) (calls : List (List User)) (user : List User),
      (∀ data ∈ user, data.numbers.length = 1) → RoundTrip order order' (saved calls) user := by
  intro h
  obtain ⟨before, after, hbefore, hafter, hperm⟩ :=
    h .insertion .insertion [] [.ivan, .vasya] (by decide)
  have hread : readUser .insertion none (saveUser [.ivan, .vasya] none (saved [])).1 =
      some [.next [.vasya], .completed] := by decide
  have hlast : after = [.vasya] := by
    rw [hread] at hafter
    simpa using hafter.symm
  have hlength := hperm.length_eq
  rw [hlast] at hlength
  simp at hlength

end ServiceCoreData

namespace ServiceCoreDataOperation

def saved (calls : List (List User)) : Context ObjectGraph :=
  calls.foldl (fun context user => (saveUser user none context).1) (.opened {})

def RoundTrip (order order' : FetchOrder Users) (context : Context ObjectGraph) (user : List User) : Prop :=
  ∃ before after, readUser order none context = some (.ok before) ∧
    readUser order' none (saveUser user none context).1 = some (.ok after) ∧
    after.Perm (before ++ user)

theorem saved_snoc (calls : List (List User)) (user : List User) :
    saved (calls ++ [user]) = (saveUser user none (saved calls)).1 := List.foldl_concat ..

theorem registered_saveUser (user : List User) (context : Context ObjectGraph) :
    (saveUser user none context).1.registered = insertUser user context.registered := rfl

theorem readUser_ok_iff {order : FetchOrder Users} {context : Context ObjectGraph} {users : List User} :
    readUser order none context = some (.ok users) ↔
      (order.arrange context.registered.users).mapM context.registered.user = some users := by
  simp only [readUser, fetch]
  cases (order.arrange context.registered.users).mapM context.registered.user <;> simp

theorem complete_insertUser {g : ObjectGraph} (hc : g.Complete) (user : List User) :
    (insertUser user g).Complete ∧ (insertUser user g).contents = g.contents ++ user.map User.stored := by
  rw [insertUser_eq]
  exact hc.foldl_add user

theorem complete_saved (calls : List (List User)) : (saved calls).registered.Complete := by
  induction calls using List.reverseRecOn with
  | nil => simp [saved, Context.opened, ObjectGraph.Complete]
  | append_singleton calls user ih =>
    rw [saved_snoc, registered_saveUser]
    exact (complete_insertUser ih user).1

/-- A user comes back with the last pair of numbers only, or with zeros. -/
theorem numbers_round_trip_iff (order order' : FetchOrder Users) (calls : List (List User))
    (user : List User) :
    RoundTrip order order' (saved calls) user ↔ ∀ data ∈ user, data.numbers.length = 1 := by
  have hc := complete_saved calls
  have hsave := complete_insertUser hc user
  simp only [RoundTrip, readUser_ok_iff, registered_saveUser]
  constructor
  · rintro ⟨before, after, hbefore, hafter, hperm⟩ data hdata
    have hbefore' := ObjectGraph.read_perm hbefore
    have hafter' := ObjectGraph.read_perm hafter
    rw [hsave.2] at hafter'
    have hlists : (user.map User.stored).Perm user := by
      apply (List.perm_append_left_iff before).mp
      exact ((hbefore'.append_right _).trans hafter'.symm).trans hperm
    obtain ⟨source, _, hsource⟩ := List.mem_map.mp (hlists.mem_iff.mpr hdata)
    rw [← hsource]
    rfl
  · intro hnumbers
    obtain ⟨before, hbefore⟩ := hc.read order
    obtain ⟨after, hafter⟩ := hsave.1.read order'
    refine ⟨before, after, hbefore, hafter, ?_⟩
    have hperm := ObjectGraph.read_perm hafter
    rw [hsave.2, User.map_stored_eq hnumbers] at hperm
    exact hperm.trans ((ObjectGraph.read_perm hbefore).symm.append_right _)

theorem first_numbers_lost :
    ¬ ∀ (order order' : FetchOrder Users) (calls : List (List User)) (user : List User),
      RoundTrip order order' (saved calls) user := by
  intro h
  let data : User := { User.ivan with numbers := [⟨228, 1488⟩, ⟨229, 1489⟩] }
  obtain ⟨before, after, hbefore, hafter, hperm⟩ := h .insertion .insertion [] [data]
  have hread : readUser .insertion none (saveUser [data] none (saved [])).1 =
      some (.ok [{ User.ivan with numbers := [⟨229, 1489⟩] }]) := by rfl
  have hlast : after = [{ User.ivan with numbers := [⟨229, 1489⟩] }] := by
    rw [hread] at hafter
    simpa using hafter.symm
  have hmem : data ∈ after := hperm.mem_iff.mpr (by simp)
  rw [hlast] at hmem
  exact absurd hmem (by decide)

end ServiceCoreDataOperation

end Reservation
