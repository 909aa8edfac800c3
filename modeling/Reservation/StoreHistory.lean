import Reservation.Journal
import Reservation.MixedSaves
import Reservation.UserInvariant

/-! The store over several launches of the app, with all its saves on the one
context. Nothing saves the context when the app goes away, so what is still
pending then is lost. -/

namespace Reservation

open ManagedObjects ServiceCoreData

inductive StoreCall
  | saveOfficeData (offices : List Office)
  | saveRoomsData (rooms : List RoomsJSON)
  | saveWorkplaceData (workplace : List WorkPlace)
  | saveUser (call : SaveUser)
  deriving DecidableEq

def SaveUser.perform (context : Context ObjectGraph) (error : Option NSError) : SaveUser → Context ObjectGraph
  | serviceCoreData user => (ServiceCoreData.saveUser user error context).1
  | serviceCoreDataOperation user => (ServiceCoreDataOperation.saveUser user error context).1

def StoreCall.perform (context : Context ObjectGraph) (error : Option NSError) :
    StoreCall → Option (Context ObjectGraph)
  | saveOfficeData offices => (ServiceCoreData.saveOfficeData offices error context).map Prod.fst
  | saveRoomsData rooms => (ServiceCoreData.saveRoomsData rooms error context).map Prod.fst
  | saveWorkplaceData workplace => (ServiceCoreData.saveWorkplaceData workplace error context).map Prod.fst
  | saveUser call => some (call.perform context error)

abbrev StoreEvent := ContextEvent StoreCall NSError

def StoreEvent.perform (context : Context ObjectGraph) : StoreEvent → Option (Context ObjectGraph)
  | .transact call error => call.perform context error
  -- `persistentContainer` loads the store again
  | .reopen => some (.opened context.persisted)

/-- The context after these events, the app being launched on an empty store;
`none` if a save has trapped. -/
def launches (events : List StoreEvent) : Option (Context ObjectGraph) :=
  events.foldlM StoreEvent.perform (.opened {})

namespace SaveUser

/-- The users that the rows of a call decode to. -/
def kept : SaveUser → List User
  | serviceCoreData user => (user.getLast?.map User.stored).toList
  | serviceCoreDataOperation user => user.map User.stored

/-- The call leaves no row without a name. -/
def Named (call : SaveUser) : Prop := call ≠ .serviceCoreData []

theorem perform_eq (context : Context ObjectGraph) (error : Option NSError) (call : SaveUser) :
    call.perform context error = context.transact call.insert error := by
  cases call <;> cases error <;> rfl

theorem insert_objects (call : SaveUser) (g : ObjectGraph) : (call.insert g).objects = g.objects := by
  cases call with
  | serviceCoreData user => exact insertUser_objects user g
  | serviceCoreDataOperation user =>
    rw [insert, ServiceCoreDataOperation.insertUser_eq]
    induction user generalizing g with
    | nil => rfl
    | cons data user ih => exact ih (g.add data)

theorem insert_users (call : SaveUser) (g : ObjectGraph) :
    ∃ rows, (call.insert g).users = g.users ++ rows ∧
      ((∀ row ∈ rows, row.firstName.isSome) ↔ call.Named) := by
  cases call with
  | serviceCoreData user =>
    obtain ⟨row, hrow, hname⟩ := users_insertUser user g
    refine ⟨[row], hrow, ?_⟩
    simp only [List.forall_mem_singleton, hname, Named, ne_eq, SaveUser.serviceCoreData.injEq]
  | serviceCoreDataOperation user =>
    rw [insert, ServiceCoreDataOperation.insertUser_eq]
    suffices h : ∃ rows, (user.foldl ObjectGraph.add g).users = g.users ++ rows ∧
        ∀ row ∈ rows, row.firstName.isSome by
      obtain ⟨rows, hrows, hnames⟩ := h
      exact ⟨rows, hrows, iff_of_true hnames (by simp [Named])⟩
    induction user generalizing g with
    | nil => exact ⟨[], by simp, by simp⟩
    | cons data user ih =>
      obtain ⟨rows, hrows, hnames⟩ := ih (g.add data)
      refine ⟨data.usersRow g.pets.length g.numbersPhone.length :: rows, ?_, ?_⟩
      · rw [List.foldl_cons, hrows, ObjectGraph.add, List.append_assoc, List.singleton_append]
      · exact List.forall_mem_cons.mpr ⟨rfl, hnames⟩

theorem insert_complete {g : ObjectGraph} (hc : g.Complete) {call : SaveUser} (hnamed : call.Named) :
    (call.insert g).Complete ∧ (call.insert g).contents = g.contents ++ call.kept := by
  cases call with
  | serviceCoreData user =>
    obtain ⟨init, data, rfl⟩ := (List.eq_nil_or_concat user).resolve_left fun hnil => hnamed (by rw [hnil])
    rw [List.concat_eq_append]
    have hkept : kept (.serviceCoreData (init ++ [data])) = [data.stored] := by simp [kept]
    rw [hkept]
    exact ServiceCoreData.complete_insertUser hc init data
  | serviceCoreDataOperation user => exact ServiceCoreDataOperation.complete_insertUser hc user

end SaveUser

namespace StoreCall

def offices : StoreCall → List Office
  | saveOfficeData offices => offices
  | _ => []

def rooms : StoreCall → List RoomsJSON
  | saveRoomsData rooms => rooms
  | _ => []

def workplaces : StoreCall → List WorkPlace
  | saveWorkplaceData workplace => workplace
  | _ => []

def users : StoreCall → List User
  | saveUser call => call.kept
  | _ => []

/-- What a call edits the object graph to, whether its save throws or not. -/
def edit (g : ObjectGraph) : StoreCall → ObjectGraph
  | saveOfficeData offices => { g with objects := g.objects ++ offices.map Office.object }
  | saveRoomsData rooms => { g with objects := g.objects ++ rooms.map RoomsJSON.object }
  | saveWorkplaceData workplace => { g with objects := g.objects ++ workplace.map WorkPlace.object }
  | saveUser call => call.insert g

theorem perform_eq (context : Context ObjectGraph) (error : Option NSError) (call : StoreCall) :
    call.perform context error = some (context.transact (edit · call) error) := by
  cases call with
  | saveOfficeData offices =>
    rw [perform, ServiceCoreData.saveOfficeData, offices_lawful.save]
    rfl
  | saveRoomsData rooms =>
    rw [perform, ServiceCoreData.saveRoomsData, rooms_lawful.save]
    rfl
  | saveWorkplaceData workplace =>
    rw [perform, ServiceCoreData.saveWorkplaceData, workplaces_lawful.save]
    rfl
  | saveUser call => exact congrArg some (call.perform_eq context error)

end StoreCall

/-- The graph that these calls make of an empty one. -/
def replayed (calls : List StoreCall) : ObjectGraph := calls.foldl StoreCall.edit {}

theorem replayed_snoc (calls : List StoreCall) (call : StoreCall) :
    replayed (calls ++ [call]) = call.edit (replayed calls) := List.foldl_concat ..

theorem launches_eq (events : List StoreEvent) :
    launches events =
      some ⟨replayed (ContextEvent.registered events), replayed (ContextEvent.persisted events)⟩ := by
  have hperform (context : Context ObjectGraph) (event : StoreEvent) :
      StoreEvent.perform context event = some (context.step StoreCall.edit event) := by
    cases event with
    | reopen => rfl
    | transact call error => exact call.perform_eq context error
  have hfold := List.foldlM_pure (m := Option) (f := Context.step StoreCall.edit)
    (b := (.opened {} : Context ObjectGraph)) (l := events)
  rw [launches, funext₂ hperform]
  refine hfold.trans ?_
  rw [Context.foldl_step]
  rfl

namespace StoreCall

def rows (calls : List StoreCall) : CatalogueRows :=
  ⟨calls.flatMap offices, calls.flatMap rooms, calls.flatMap workplaces⟩

theorem replayed_holds (calls : List StoreCall) : (rows calls).HeldBy (replayed calls) := by
  induction calls using List.reverseRecOn with
  | nil => exact ⟨Kind.holds_empty _, Kind.holds_empty _, Kind.holds_empty _⟩
  | append_singleton calls call ih =>
    have hrows : rows (calls ++ [call]) = ⟨(rows calls).offices ++ call.offices,
        (rows calls).rooms ++ call.rooms, (rows calls).workplaces ++ call.workplaces⟩ := by simp [rows]
    rw [replayed_snoc, hrows]
    cases call with
    | saveOfficeData list => exact ih.saveOfficeData list none
    | saveRoomsData list => exact ih.saveRoomsData list none
    | saveWorkplaceData list => exact ih.saveWorkplaceData list none
    | saveUser call =>
      simp only [offices, rooms, workplaces, List.append_nil]
      exact ih.congr (call.insert_objects _)

/-- The call leaves no row of `Users` without a name. -/
def Named (call : StoreCall) : Prop := call ≠ .saveUser (.serviceCoreData [])

theorem replayed_named (calls : List StoreCall) :
    (∀ row ∈ (replayed calls).users, row.firstName.isSome) ↔ ∀ call ∈ calls, call.Named := by
  induction calls using List.reverseRecOn with
  | nil => simp [replayed]
  | append_singleton calls call ih =>
    rw [replayed_snoc, List.forall_mem_append, List.forall_mem_singleton, ← ih]
    cases call with
    | saveUser call =>
      obtain ⟨rows, hrows, hnames⟩ := call.insert_users (replayed calls)
      rw [edit, hrows, List.forall_mem_append, hnames]
      simp only [SaveUser.Named, Named, ne_eq, StoreCall.saveUser.injEq]
    | _ => simp [Named, edit]

theorem replayed_complete {calls : List StoreCall} (h : ∀ call ∈ calls, call.Named) :
    (replayed calls).Complete ∧ (replayed calls).contents = calls.flatMap users := by
  induction calls using List.reverseRecOn with
  | nil => simp [replayed, ObjectGraph.Complete, ObjectGraph.contents]
  | append_singleton calls call ih =>
    obtain ⟨hcalls, hcall⟩ := List.forall_mem_append.mp h
    obtain ⟨hcomplete, hcontents⟩ := ih hcalls
    rw [replayed_snoc, List.flatMap_append, List.flatMap_singleton, ← hcontents]
    cases call with
    | saveUser call =>
      have hnamed : call.Named := fun hempty => hcall _ (List.mem_singleton_self _) (by rw [hempty])
      exact SaveUser.insert_complete hcomplete hnamed
    | _ => exact ⟨hcomplete, (List.append_nil _).symm⟩

end StoreCall

/-- Every read finds exactly these calls: the rows of the catalogue and, of each
call for users, the ones it keeps. A read of users traps if one of the calls has
left a row without a name. -/
structure ReadsBack (calls : List StoreCall) (context : Context ObjectGraph) : Prop where
  offices : ∀ (order : FetchOrder NSManagedObject), ∃ out,
    readOfficeData order none context = some [.next out, .completed] ∧
      out.Perm (calls.flatMap StoreCall.offices) ∧ out.Pairwise fun a b => a.number ≤ b.number
  rooms : ∀ (order : FetchOrder NSManagedObject), ∃ out,
    readRoomsData order none context = some [.next out, .completed] ∧
      out.Perm (calls.flatMap StoreCall.rooms)
  workplaces : ∀ (order : FetchOrder NSManagedObject), ∃ out,
    readWorkplaceData order none context = some [.next out, .completed] ∧
      out.Perm (calls.flatMap StoreCall.workplaces) ∧ out.Pairwise fun a b => a.number ≤ b.number
  users : (∀ call ∈ calls, call ≠ .saveUser (.serviceCoreData [])) → ∀ (order : FetchOrder Users), ∃ out,
    ServiceCoreData.readUser order none context = some [.next out, .completed] ∧
      ServiceCoreDataOperation.readUser order none context = some (.ok out) ∧
      out.Perm (calls.flatMap StoreCall.users)
  traps : .saveUser (.serviceCoreData []) ∈ calls → ∀ (order : FetchOrder Users),
    ServiceCoreData.readUser order none context = none ∧
      ServiceCoreDataOperation.readUser order none context = none

theorem readsBack (calls : List StoreCall) (store : ObjectGraph) :
    ReadsBack calls ⟨replayed calls, store⟩ := by
  have hheld : (StoreCall.rows calls).HeldBy
      (Context.mk (replayed calls) store).registered := StoreCall.replayed_holds calls
  constructor
  · intro order
    obtain ⟨out, hread, hperm⟩ := hheld.offices.read order
    exact ⟨out, hread, hperm, readOfficeData_sorted hread⟩
  · intro order
    exact hheld.rooms.read order
  · intro order
    obtain ⟨out, hread, hperm⟩ := hheld.workplaces.read order
    exact ⟨out, hread, hperm, readWorkplaceData_sorted hread⟩
  · intro hnamed order
    obtain ⟨hcomplete, hcontents⟩ := StoreCall.replayed_complete hnamed
    obtain ⟨out, hread⟩ := hcomplete.read order
    refine ⟨out, ServiceCoreData.readUser_next_iff.mpr hread,
      ServiceCoreDataOperation.readUser_ok_iff.mpr hread, ?_⟩
    rw [← hcontents]
    exact ObjectGraph.read_perm hread
  · intro hmem order
    have hnone : (order.arrange (replayed calls).users).mapM (replayed calls).user = none := by
      cases hread : (order.arrange (replayed calls).users).mapM (replayed calls).user with
      | none => rfl
      | some out =>
        have hcomplete := ObjectGraph.complete_of_read hread
        have hnames := (StoreCall.replayed_named calls).mp fun row hrow =>
          ObjectGraph.firstName_of_user (hcomplete row hrow)
        exact absurd rfl (hnames _ hmem)
    simp [ServiceCoreData.readUser, ServiceCoreDataOperation.readUser, fetch, hnone]

/-- Over every history of saves, of errors of `context.save` and of launches,
the reads find exactly the saves since the last launch and those before it that
were followed, before the next launch, by a save that did not throw. -/
theorem reads_survivors (events : List StoreEvent) :
    ∃ context, launches events = some context ∧ ReadsBack (ContextEvent.registered events) context ∧
      ReadsBack (ContextEvent.persisted events) (.opened context.persisted) :=
  ⟨_, launches_eq events, readsBack _ _, readsBack _ _⟩

end Reservation
