import Reservation.UserRoundTrip

/-! `fetchUserData` puts a save and a read on an operation queue that may execute
what is enqueued in any order. The closure of every read overwrites `userArray`. -/

namespace Reservation

open ManagedObjects

inductive UserOperation
  | saveUser (user : List User)
  | readUser
  deriving DecidableEq

namespace UserOperation

def fetchUserData (user : List User) : List UserOperation := [.saveUser user, .readUser]

def savedBy : UserOperation → List User
  | saveUser user => user
  | readUser => []

end UserOperation

structure UserFetch where
  context : Context ObjectGraph
  userArray : List User

namespace UserFetch

/-- An operation is done as a whole, and neither its save nor its fetch throws. -/
def perform (fetched : UserFetch) : UserOperation × FetchOrder Users → Option UserFetch
  | (.saveUser user, _) =>
    some { fetched with context := (ServiceCoreDataOperation.saveUser user none fetched.context).1 }
  | (.readUser, order) =>
    match ServiceCoreDataOperation.readUser order none fetched.context with
    | some (.ok users) => some { fetched with userArray := users }
    | some (.error _) => some fetched
    | none => none

def execute (fetched : UserFetch) (operations : List (UserOperation × FetchOrder Users)) :
    Option UserFetch := operations.foldlM perform fetched

def saves (operations : List (UserOperation × FetchOrder Users)) : List User :=
  operations.flatMap fun operation => operation.1.savedBy

theorem saves_append (operations more : List (UserOperation × FetchOrder Users)) :
    saves (operations ++ more) = saves operations ++ saves more := List.flatMap_append

theorem perform_readUser {fetched : UserFetch} (hc : fetched.context.registered.Complete)
    (order : FetchOrder Users) :
    ∃ users, fetched.perform (.readUser, order) = some { fetched with userArray := users } ∧
      users.Perm fetched.context.registered.contents := by
  obtain ⟨users, hread⟩ := hc.read order
  refine ⟨users, ?_, ObjectGraph.read_perm hread⟩
  rw [perform, ServiceCoreDataOperation.readUser_ok_iff.mpr hread]

theorem execute_complete (fetched : UserFetch) (hc : fetched.context.registered.Complete)
    (operations : List (UserOperation × FetchOrder Users)) :
    ∃ after, fetched.execute operations = some after ∧ after.context.registered.Complete ∧
      after.context.registered.contents =
        fetched.context.registered.contents ++ (saves operations).map User.stored ∧
      ((∀ operation ∈ operations, operation.1 ≠ .readUser) → after.userArray = fetched.userArray) := by
  induction operations generalizing fetched with
  | nil => exact ⟨fetched, rfl, hc, by simp [saves], fun _ => rfl⟩
  | cons operation operations ih =>
    obtain ⟨operation, order⟩ := operation
    cases operation with
    | saveUser user =>
      have hsave := ServiceCoreDataOperation.complete_insertUser hc user
      obtain ⟨after, hrun, hafter, hcontents, harray⟩ := ih
        { fetched with context := (ServiceCoreDataOperation.saveUser user none fetched.context).1 } hsave.1
      refine ⟨after, hrun, hafter, ?_, ?_⟩
      · rw [hcontents]
        change (ServiceCoreDataOperation.insertUser user fetched.context.registered).contents ++ _ = _
        rw [hsave.2, List.append_assoc, ← List.map_append]
        rfl
      · intro h
        exact harray fun operation ho => h operation (List.mem_cons_of_mem _ ho)
    | readUser =>
      obtain ⟨users, hperform, _⟩ := perform_readUser hc order
      obtain ⟨after, hrun, hafter, hcontents, _⟩ := ih { fetched with userArray := users } hc
      refine ⟨after, ?_, hafter, hcontents, ?_⟩
      · rw [execute, List.foldlM_cons, hperform]
        exact hrun
      · intro h
        exact absurd rfl (h (.readUser, order) (by simp))

theorem userArray_after_last_read {fetched : UserFetch} (hc : fetched.context.registered.Complete)
    (seen : List (UserOperation × FetchOrder Users)) (order : FetchOrder Users)
    {unseen : List (UserOperation × FetchOrder Users)}
    (hlast : ∀ operation ∈ unseen, operation.1 ≠ .readUser) :
    ∃ after, fetched.execute (seen ++ (.readUser, order) :: unseen) = some after ∧
      after.userArray.Perm (fetched.context.registered.contents ++ (saves seen).map User.stored) := by
  obtain ⟨before, hseen, hbefore, hcontents, _⟩ := execute_complete fetched hc seen
  obtain ⟨users, hperform, hperm⟩ := perform_readUser hbefore order
  obtain ⟨after, hunseen, _, _, harray⟩ :=
    execute_complete { before with userArray := users } hbefore unseen
  refine ⟨after, ?_, ?_⟩
  · rw [execute] at hseen hunseen
    rw [execute, List.foldlM_append, hseen]
    change (before.perform (.readUser, order) >>= _) = _
    rw [hperform]
    exact hunseen
  · rw [harray hlast, ← hcontents]
    exact hperm

theorem mem_saves_iff {runs : List (List User)} {executed : List (UserOperation × FetchOrder Users)}
    (hperm : (executed.map Prod.fst).Perm (runs.flatMap UserOperation.fetchUserData)) {data : User} :
    data ∈ saves executed ↔ ∃ user ∈ runs, data ∈ user := by
  have hmap : saves executed = (executed.map Prod.fst).flatMap UserOperation.savedBy := by
    rw [List.flatMap_map]
    rfl
  rw [hmap, (hperm.flatMap_right _).mem_iff, List.flatMap_assoc, List.mem_flatMap]
  simp [UserOperation.fetchUserData, UserOperation.savedBy]

theorem exists_last_read {executed : List (UserOperation × FetchOrder Users)}
    (h : .readUser ∈ executed.map Prod.fst) :
    ∃ seen order unseen, executed = seen ++ (.readUser, order) :: unseen ∧
      ∀ operation ∈ unseen, operation.1 ≠ .readUser := by
  induction executed using List.reverseRecOn with
  | nil => simp at h
  | append_singleton executed operation ih =>
    obtain ⟨operation, order⟩ := operation
    by_cases hread : operation = .readUser
    · subst hread
      exact ⟨executed, order, [], rfl, by simp⟩
    · have hbefore : .readUser ∈ executed.map Prod.fst := by
        have hne : UserOperation.readUser ≠ operation := Ne.symm hread
        simpa [hne] using h
      obtain ⟨seen, order', unseen, rfl, hlast⟩ := ih hbefore
      refine ⟨seen, order', unseen ++ [(operation, order)], by simp, ?_⟩
      exact List.forall_mem_append.mpr ⟨hlast, by simpa using hread⟩

/-- Whatever is saved after the last read was saved before it as well. -/
def NothingMissed (prior : List User) (executed : List (UserOperation × FetchOrder Users)) : Prop :=
  ∀ seen order unseen, executed = seen ++ (.readUser, order) :: unseen →
    (∀ operation ∈ unseen, operation.1 ≠ .readUser) →
      ∀ data ∈ saves unseen, data ∈ prior ∨ data ∈ saves seen

theorem userArray_contains_iff {fetched : UserFetch} (hc : fetched.context.registered.Complete)
    {runs : List (List User)} (hnumbers : ∀ user ∈ runs, ∀ data ∈ user, data.numbers.length = 1)
    {executed : List (UserOperation × FetchOrder Users)}
    (hperm : (executed.map Prod.fst).Perm (runs.flatMap UserOperation.fetchUserData)) :
    (∃ after, fetched.execute executed = some after ∧
        ∀ user ∈ runs, ∀ data ∈ user, data ∈ after.userArray) ↔
      NothingMissed fetched.context.registered.contents executed := by
  have hstored {operations : List (UserOperation × FetchOrder Users)}
      (hsub : saves operations ⊆ saves executed) : (saves operations).map User.stored = saves operations := by
    apply User.map_stored_eq
    intro data hdata
    obtain ⟨user, huser, hmem⟩ := (mem_saves_iff hperm).mp (hsub hdata)
    exact hnumbers user huser data hmem
  have hsplit {seen unseen : List (UserOperation × FetchOrder Users)} {order : FetchOrder Users}
      (he : executed = seen ++ (.readUser, order) :: unseen) :
      saves executed = saves seen ++ saves unseen := by
    rw [he, saves_append]
    rfl
  have hseen {seen unseen : List (UserOperation × FetchOrder Users)} {order : FetchOrder Users}
      (he : executed = seen ++ (.readUser, order) :: unseen) :
      (saves seen).map User.stored = saves seen := by
    apply hstored
    rw [hsplit he]
    exact List.subset_append_left _ _
  constructor
  · rintro ⟨after, hrun, hall⟩ seen order unseen he hlast data hdata
    obtain ⟨after', hrun', harray⟩ := userArray_after_last_read hc seen order hlast
    rw [← he, hrun] at hrun'
    obtain rfl := Option.some.inj hrun'
    rw [hseen he] at harray
    obtain ⟨user, huser, hmem⟩ := (mem_saves_iff hperm).mp (hsplit he ▸ List.mem_append_right _ hdata)
    exact List.mem_append.mp (harray.mem_iff.mp (hall user huser data hmem))
  · intro hmissed
    cases runs with
    | nil =>
      have hnil : executed = [] := List.map_eq_nil_iff.mp (List.perm_nil.mp hperm)
      subst hnil
      exact ⟨fetched, rfl, by simp⟩
    | cons first rest =>
      have hread : .readUser ∈ executed.map Prod.fst := by
        rw [hperm.mem_iff]
        simp [UserOperation.fetchUserData]
      obtain ⟨seen, order, unseen, he, hlast⟩ := exists_last_read hread
      obtain ⟨after, hrun, harray⟩ := userArray_after_last_read hc seen order hlast
      rw [hseen he] at harray
      rw [← he] at hrun
      refine ⟨after, hrun, fun user huser data hdata => ?_⟩
      have hmem : data ∈ saves executed := (mem_saves_iff hperm).mpr ⟨user, huser, hdata⟩
      rw [hsplit he] at hmem
      apply harray.mem_iff.mpr
      rcases List.mem_append.mp hmem with hbefore | hafter
      · exact List.mem_append_right _ hbefore
      · exact List.mem_append.mpr (hmissed seen order unseen he hlast data hafter)

/-- Two interleaved runs over a store that has the user saved last. -/
theorem two_runs_contain :
    ∃ after,
      execute ⟨.opened (ServiceCoreDataOperation.insertUser [.vasya] {}), []⟩ [(.saveUser [.ivan], .insertion),
        (.readUser, .insertion), (.readUser, .insertion), (.saveUser [.vasya], .insertion)] = some after ∧
      ∀ user ∈ [[User.ivan], [.vasya]], ∀ data ∈ user, data ∈ after.userArray := by
  have hempty : ({} : ObjectGraph).Complete := by simp [ObjectGraph.Complete]
  obtain ⟨hcomplete, hcontents⟩ := ServiceCoreDataOperation.complete_insertUser hempty [.vasya]
  refine (@userArray_contains_iff ⟨.opened (ServiceCoreDataOperation.insertUser [.vasya] {}), []⟩
    hcomplete [[.ivan], [.vasya]] (by decide) _ (by decide)).mpr ?_
  intro seen order unseen he hlast data hdata
  rcases seen with _ | ⟨first, _ | ⟨second, _ | ⟨third, _ | ⟨fourth, rest⟩⟩⟩⟩
  · simp at he
  · simp only [List.cons_append, List.nil_append, List.cons.injEq] at he
    exact absurd rfl (hlast (.readUser, .insertion) (by simp [← he.2.2]))
  · simp only [List.cons_append, List.nil_append, List.cons.injEq] at he
    rw [← he.2.2.2] at hdata
    left
    change data ∈ (ServiceCoreDataOperation.insertUser [.vasya] {}).contents
    rw [hcontents]
    exact List.mem_append_right _ hdata
  · simp at he
  · simp at he

theorem read_then_save_misses :
    ¬ ∀ (fetched : UserFetch) (runs : List (List User)) (executed : List (UserOperation × FetchOrder Users)),
      fetched.context.registered.Complete → (∀ user ∈ runs, ∀ data ∈ user, data.numbers.length = 1) →
      (executed.map Prod.fst).Perm (runs.flatMap UserOperation.fetchUserData) →
        ∃ after, fetched.execute executed = some after ∧
          ∀ user ∈ runs, ∀ data ∈ user, data ∈ after.userArray := by
  intro h
  obtain ⟨after, hrun, hall⟩ := h ⟨.opened {}, []⟩ [[.ivan]]
    [(.readUser, .insertion), (.saveUser [.ivan], .insertion)]
    (by simp [Context.opened, ObjectGraph.Complete]) (by decide) (.swap _ _ _)
  have hempty : after.userArray = [] := by
    obtain rfl := Option.some.inj hrun
    rfl
  have hmem := hall [.ivan] (by simp) .ivan (by simp)
  rw [hempty] at hmem
  simp at hmem

end UserFetch

end Reservation
