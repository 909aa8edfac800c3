import Reservation.Catalogue
import Reservation.Machine

/-! Runs of the saves and reads of the catalogue on the one context. Any of the
saves may throw. -/

namespace Reservation

open ManagedObjects

inductive CatalogueOperation
  | saveOfficeData (offices : List Office) (error : Option NSError)
  | saveRoomsData (rooms : List RoomsJSON) (error : Option NSError)
  | saveWorkplaceData (workplace : List WorkPlace) (error : Option NSError)
  | readOfficeData (order : FetchOrder NSManagedObject)
  | readRoomsData (order : FetchOrder NSManagedObject)
  | readWorkplaceData (order : FetchOrder NSManagedObject)

inductive Emission
  | saved (events : List (Rx.Event AnyError Unit))
  | offices (events : List (Rx.Event NSError (List Office)))
  | rooms (events : List (Rx.Event NSError (List RoomsJSON)))
  | workplaces (events : List (Rx.Event NSError (List WorkPlace)))
  | trap

structure CatalogueRows where
  offices : List Office
  rooms : List RoomsJSON
  workplaces : List WorkPlace

namespace CatalogueOperation

def rows : CatalogueOperation → CatalogueRows
  | saveOfficeData list _ => ⟨list, [], []⟩
  | saveRoomsData list _ => ⟨[], list, []⟩
  | saveWorkplaceData list _ => ⟨[], [], list⟩
  | _ => ⟨[], [], []⟩

def succeeds : CatalogueOperation → Bool
  | saveOfficeData _ error => error.isNone
  | saveRoomsData _ error => error.isNone
  | saveWorkplaceData _ error => error.isNone
  | _ => false

/-- The operation of `ServiceCoreData`, on a context; `none` when it traps. -/
def perform (context : Context ObjectGraph) : CatalogueOperation → Option (Context ObjectGraph × Emission)
  | saveOfficeData list error => do
    let result ← ServiceCoreData.saveOfficeData list error context
    return (result.1, .saved result.2)
  | saveRoomsData list error => do
    let result ← ServiceCoreData.saveRoomsData list error context
    return (result.1, .saved result.2)
  | saveWorkplaceData list error => do
    let result ← ServiceCoreData.saveWorkplaceData list error context
    return (result.1, .saved result.2)
  | readOfficeData order => do
    return (context, .offices (← ServiceCoreData.readOfficeData order none context))
  | readRoomsData order => do
    return (context, .rooms (← ServiceCoreData.readRoomsData order none context))
  | readWorkplaceData order => do
    return (context, .workplaces (← ServiceCoreData.readWorkplaceData order none context))

end CatalogueOperation

def catalogue : Machine (Option (Context ObjectGraph)) CatalogueOperation Emission where
  step context operation :=
    match context with
    -- the app is gone after a trap
    | none => (none, [])
    | some context =>
      match operation.perform context with
      | some result => (some result.1, [result.2])
      | none => (none, [.trap])

def emptyCatalogue : Option (Context ObjectGraph) := some (.opened {})

namespace CatalogueRows

def append (r : CatalogueRows) (operation : CatalogueOperation) : CatalogueRows :=
  ⟨r.offices ++ operation.rows.offices, r.rooms ++ operation.rows.rooms,
    r.workplaces ++ operation.rows.workplaces⟩

def ofSaves (operations : List CatalogueOperation) : CatalogueRows :=
  ⟨operations.flatMap (·.rows.offices), operations.flatMap (·.rows.rooms),
    operations.flatMap (·.rows.workplaces)⟩

structure HeldBy (r : CatalogueRows) (g : ObjectGraph) : Prop where
  offices : ServiceCoreData.officesKind.Holds g r.offices
  rooms : ServiceCoreData.roomsKind.Holds g r.rooms
  workplaces : ServiceCoreData.workplacesKind.Holds g r.workplaces

theorem ofSaves_snoc (operations : List CatalogueOperation) (operation : CatalogueOperation) :
    ofSaves (operations ++ [operation]) = (ofSaves operations).append operation := by
  simp [ofSaves, append]

end CatalogueRows

namespace Emission

def Exactly (r : CatalogueRows) : Emission → Prop
  | saved _ => True
  | offices events => ∃ list, events = [.next list, .completed] ∧ list.Perm r.offices
  | rooms events => ∃ list, events = [.next list, .completed] ∧ list.Perm r.rooms
  | workplaces events => ∃ list, events = [.next list, .completed] ∧ list.Perm r.workplaces
  | trap => False

def ReportsSuccess : Emission → Prop
  | saved events => .next () ∈ events
  | _ => False

theorem reportsSuccess_iff (error : Option NSError) :
    (saved (Kind.report error)).ReportsSuccess ↔ error.isNone = true := by
  cases error <;> simp [ReportsSuccess, Kind.report]

end Emission

open ServiceCoreData

namespace CatalogueRows

variable {r : CatalogueRows} {g : ObjectGraph}

theorem HeldBy.saveOfficeData (h : r.HeldBy g) (list : List Office) (error : Option NSError) :
    (r.append (.saveOfficeData list error)).HeldBy
      { g with objects := g.objects ++ list.map Office.object } := by
  simp only [append, CatalogueOperation.rows, List.append_nil]
  exact ⟨offices_lawful.holds_append h.offices list, offices_lawful.holds_other (by decide) h.rooms list,
    offices_lawful.holds_other (by decide) h.workplaces list⟩

theorem HeldBy.saveRoomsData (h : r.HeldBy g) (list : List RoomsJSON) (error : Option NSError) :
    (r.append (.saveRoomsData list error)).HeldBy
      { g with objects := g.objects ++ list.map RoomsJSON.object } := by
  simp only [append, CatalogueOperation.rows, List.append_nil]
  exact ⟨rooms_lawful.holds_other (by decide) h.offices list, rooms_lawful.holds_append h.rooms list,
    rooms_lawful.holds_other (by decide) h.workplaces list⟩

theorem HeldBy.saveWorkplaceData (h : r.HeldBy g) (list : List WorkPlace) (error : Option NSError) :
    (r.append (.saveWorkplaceData list error)).HeldBy
      { g with objects := g.objects ++ list.map WorkPlace.object } := by
  simp only [append, CatalogueOperation.rows, List.append_nil]
  exact ⟨workplaces_lawful.holds_other (by decide) h.offices list,
    workplaces_lawful.holds_other (by decide) h.rooms list, workplaces_lawful.holds_append h.workplaces list⟩

theorem append_of_read {operation : CatalogueOperation} (h : operation.rows = ⟨[], [], []⟩) :
    r.append operation = r := by
  simp only [append, h, List.append_nil]

end CatalogueRows

namespace CatalogueOperation

theorem perform_saveOfficeData (list : List Office) (error : Option NSError)
    (context : Context ObjectGraph) :
    (saveOfficeData list error).perform context =
      some (context.transact (fun g => { g with objects := g.objects ++ list.map Office.object }) error,
        .saved (Kind.report error)) := by
  rw [perform, ServiceCoreData.saveOfficeData, offices_lawful.save]
  rfl

theorem perform_saveRoomsData (list : List RoomsJSON) (error : Option NSError)
    (context : Context ObjectGraph) :
    (saveRoomsData list error).perform context =
      some (context.transact (fun g => { g with objects := g.objects ++ list.map RoomsJSON.object }) error,
        .saved (Kind.report error)) := by
  rw [perform, ServiceCoreData.saveRoomsData, rooms_lawful.save]
  rfl

theorem perform_saveWorkplaceData (list : List WorkPlace) (error : Option NSError)
    (context : Context ObjectGraph) :
    (saveWorkplaceData list error).perform context =
      some (context.transact (fun g => { g with objects := g.objects ++ list.map WorkPlace.object }) error,
        .saved (Kind.report error)) := by
  rw [perform, ServiceCoreData.saveWorkplaceData, workplaces_lawful.save]
  rfl

def Performs (context : Context ObjectGraph) (r : CatalogueRows) (operation : CatalogueOperation) : Prop :=
  ∃ after emission, operation.perform context = some (after, emission) ∧
    (emission.Exactly r ∧ (emission.ReportsSuccess ↔ operation.succeeds = true)) ∧
    (r.append operation).HeldBy after.registered ∧
    (operation.succeeds = true → after.persisted = after.registered)

theorem performs_of_transact {context : Context ObjectGraph} {r : CatalogueRows}
    {operation : CatalogueOperation} {f : ObjectGraph → ObjectGraph} {error : Option NSError}
    (hperform : operation.perform context = some (context.transact f error, .saved (Kind.report error)))
    (hsucceeds : operation.succeeds = error.isNone)
    (hheld : (r.append operation).HeldBy (f context.registered)) : operation.Performs context r := by
  refine ⟨_, _, hperform, ⟨trivial, ?_⟩, ?_, ?_⟩
  · rw [hsucceeds]
    exact Emission.reportsSuccess_iff error
  · rw [Context.registered_transact]
    exact hheld
  · rw [hsucceeds]
    exact Context.persisted_transact context f

theorem performs_of_read {context : Context ObjectGraph} {r : CatalogueRows}
    {operation : CatalogueOperation} {emission : Emission} (hheld : r.HeldBy context.registered)
    (hperform : operation.perform context = some (context, emission)) (hexactly : emission.Exactly r)
    (hreport : ¬ emission.ReportsSuccess) (hsucceeds : operation.succeeds = false)
    (hrows : operation.rows = ⟨[], [], []⟩) : operation.Performs context r := by
  have hfails : ¬ operation.succeeds = true := by simp [hsucceeds]
  refine ⟨_, _, hperform, ⟨hexactly, iff_of_false hreport hfails⟩, ?_, fun hs => absurd hs hfails⟩
  rwa [CatalogueRows.append_of_read hrows]

theorem performs {context : Context ObjectGraph} {r : CatalogueRows} (h : r.HeldBy context.registered)
    (operation : CatalogueOperation) : operation.Performs context r := by
  cases operation with
  | saveOfficeData list error =>
    exact performs_of_transact (perform_saveOfficeData list error context) rfl (h.saveOfficeData list error)
  | saveRoomsData list error =>
    exact performs_of_transact (perform_saveRoomsData list error context) rfl (h.saveRoomsData list error)
  | saveWorkplaceData list error =>
    exact performs_of_transact (perform_saveWorkplaceData list error context) rfl
      (h.saveWorkplaceData list error)
  | readOfficeData order =>
    obtain ⟨list, hlist, hperm⟩ := h.offices.read order
    have hperform : (readOfficeData order).perform context =
        some (context, .offices [.next list, .completed]) := by
      rw [perform, ServiceCoreData.readOfficeData, hlist]
      rfl
    exact performs_of_read h hperform ⟨list, rfl, hperm⟩ id rfl rfl
  | readRoomsData order =>
    obtain ⟨list, hlist, hperm⟩ := h.rooms.read order
    have hperform : (readRoomsData order).perform context =
        some (context, .rooms [.next list, .completed]) := by
      rw [perform, ServiceCoreData.readRoomsData, hlist]
      rfl
    exact performs_of_read h hperform ⟨list, rfl, hperm⟩ id rfl rfl
  | readWorkplaceData order =>
    obtain ⟨list, hlist, hperm⟩ := h.workplaces.read order
    have hperform : (readWorkplaceData order).perform context =
        some (context, .workplaces [.next list, .completed]) := by
      rw [perform, ServiceCoreData.readWorkplaceData, hlist]
      rfl
    exact performs_of_read h hperform ⟨list, rfl, hperm⟩ id rfl rfl

end CatalogueOperation

theorem catalogue_step {context after : Context ObjectGraph} {operation : CatalogueOperation}
    {emission : Emission} (h : operation.perform context = some (after, emission)) :
    catalogue.step (some context) operation = (some after, [emission]) := by
  simp only [catalogue, h]

theorem catalogue_holds (operations : List CatalogueOperation) :
    ∃ context, catalogue.run emptyCatalogue operations = some context ∧
      (CatalogueRows.ofSaves operations).HeldBy context.registered := by
  apply catalogue.run_invariant (P := fun past state => ∃ context, state = some context ∧
    (CatalogueRows.ofSaves past).HeldBy context.registered)
  · exact ⟨.opened {}, rfl, Kind.holds_empty _, Kind.holds_empty _, Kind.holds_empty _⟩
  · rintro past operation ⟨context, hstate, hheld⟩
    obtain ⟨after, emission, hperform, _, hafter, _⟩ := CatalogueOperation.performs hheld operation
    rw [hstate, catalogue_step hperform, CatalogueRows.ofSaves_snoc]
    exact ⟨after, rfl, hafter⟩

def CatalogueRows.PersistedIn (r : CatalogueRows) (store : ObjectGraph) : Prop :=
  ∀ operation : CatalogueOperation, ∃ after emission,
    operation.perform (.opened store) = some (after, emission) ∧ emission.Exactly r

/-- In this run every read emits the rows that count, and a save that reports
success has persisted the rows that count. -/
def Accounts (rows : List CatalogueOperation → CatalogueRows)
    (operations : List CatalogueOperation) : Prop :=
  Machine.AtEach (fun past operation => ∃ context emission,
    catalogue.run emptyCatalogue (past ++ [operation]) = some context ∧
      catalogue.emit emptyCatalogue past operation = [emission] ∧ emission.Exactly (rows past) ∧
      (emission.ReportsSuccess ↔ operation.succeeds = true) ∧
      (emission.ReportsSuccess → (rows (past ++ [operation])).PersistedIn context.persisted)) operations

theorem every_save_accounts (operations : List CatalogueOperation) : Accounts .ofSaves operations := by
  rintro past operation future rfl
  obtain ⟨context, hstate, hheld⟩ := catalogue_holds past
  obtain ⟨after, emission, hperform, ⟨hexactly, hreports⟩, hafter, hpersisted⟩ :=
    CatalogueOperation.performs hheld operation
  have hstep := catalogue_step hperform
  refine ⟨after, emission, ?_, ?_, hexactly, hreports, ?_⟩
  · rw [Machine.run_snoc, hstate, hstep]
  · rw [Machine.emit, hstate, hstep]
  · intro hs read
    have hstore : ((CatalogueRows.ofSaves past).append operation).HeldBy
        (Context.opened after.persisted).registered := by
      rw [hpersisted (hreports.mp hs)]
      exact hafter
    obtain ⟨last, emission, hread, ⟨hexactly, _⟩, _⟩ := CatalogueOperation.performs hstore read
    rw [CatalogueRows.ofSaves_snoc]
    exact ⟨last, emission, hread, hexactly⟩

theorem failed_save_emitted :
    ¬ ∀ operations, Accounts (fun past => .ofSaves (past.filter (·.succeeds))) operations := by
  intro h
  let room : RoomsJSON := ⟨"Отдел аналитики", false⟩
  obtain ⟨context, emission, _, hemit, hexactly, _⟩ :=
    h [.saveRoomsData [room] (some ⟨0⟩), .readRoomsData .insertion]
      [.saveRoomsData [room] (some ⟨0⟩)] (.readRoomsData .insertion) [] rfl
  have hread : catalogue.emit emptyCatalogue [.saveRoomsData [room] (some ⟨0⟩)] (.readRoomsData .insertion) =
      [.rooms [.next [room], .completed]] := rfl
  obtain rfl : .rooms [.next [room], .completed] = emission := by
    simpa only [hread, List.cons.injEq, and_true] using hemit
  obtain ⟨list, hlist, hperm⟩ := hexactly
  obtain rfl := hperm.eq_nil
  simp at hlist

end Reservation
