import Reservation.FailedSaves
import Reservation.UserStore

/-! Runs of all four saves of `ServiceCoreData` on the one context, when each of
them succeeds, and what the three readers of the catalogue emit afterwards. -/

namespace Reservation

open ManagedObjects ServiceCoreData

inductive StoreSave
  | saveOfficeData (offices : List Office)
  | saveRoomsData (rooms : List RoomsJSON)
  | saveWorkplaceData (workplace : List WorkPlace)
  | saveUser (user : List User)
  deriving DecidableEq

namespace StoreSave

def offices : StoreSave → List Office
  | saveOfficeData offices => offices
  | _ => []

def rooms : StoreSave → List RoomsJSON
  | saveRoomsData rooms => rooms
  | _ => []

def workplaces : StoreSave → List WorkPlace
  | saveWorkplaceData workplace => workplace
  | _ => []

def isSaveOfficeData : StoreSave → Bool
  | saveOfficeData _ => true
  | _ => false

def isSaveRoomsData : StoreSave → Bool
  | saveRoomsData _ => true
  | _ => false

def isSaveWorkplaceData : StoreSave → Bool
  | saveWorkplaceData _ => true
  | _ => false

def perform (context : Context ObjectGraph) : StoreSave → Option (Context ObjectGraph)
  | saveOfficeData offices => (ServiceCoreData.saveOfficeData offices none context).map Prod.fst
  | saveRoomsData rooms => (ServiceCoreData.saveRoomsData rooms none context).map Prod.fst
  | saveWorkplaceData workplace => (ServiceCoreData.saveWorkplaceData workplace none context).map Prod.fst
  | saveUser user => some (ServiceCoreData.saveUser user none context).1

end StoreSave

/-- The context after these saves; `none` if one of them has trapped. -/
def store (saves : List StoreSave) : Option (Context ObjectGraph) :=
  saves.foldlM StoreSave.perform (.opened {})

def rowsOf (saves : List StoreSave) : CatalogueRows :=
  ⟨saves.flatMap StoreSave.offices, saves.flatMap StoreSave.rooms, saves.flatMap StoreSave.workplaces⟩

/-- After the saves the read emits this list and completes. -/
def Emits {α : Type} (saves : List StoreSave)
    (read : Context ObjectGraph → Option (List (Rx.Event NSError (List α)))) (out : List α) : Prop :=
  ∃ context, store saves = some context ∧ read context = some [.next out, .completed]

/-- The two reads, each after saves of its own, emit the same multiset. -/
def EmitSame {α : Type} (saves saves' : List StoreSave)
    (read read' : Context ObjectGraph → Option (List (Rx.Event NSError (List α)))) : Prop :=
  ∃ out out', Emits saves read out ∧ Emits saves' read' out' ∧ out'.Perm out

theorem store_snoc (saves : List StoreSave) (save : StoreSave) :
    store (saves ++ [save]) = (store saves).bind fun context => save.perform context := by
  rw [store, List.foldlM_append]
  cases h : saves.foldlM StoreSave.perform (.opened {}) with
  | none => simp [store, h]
  | some context => simp [store, h]

theorem rowsOf_snoc (saves : List StoreSave) (save : StoreSave) :
    rowsOf (saves ++ [save]) =
      ⟨(rowsOf saves).offices ++ save.offices, (rowsOf saves).rooms ++ save.rooms,
        (rowsOf saves).workplaces ++ save.workplaces⟩ := by
  simp [rowsOf]

theorem insertUser_objects (user : List User) (g : ObjectGraph) :
    (insertUser user g).objects = g.objects := by
  have hfold (i : Nat) : ∀ g : ObjectGraph, (user.foldl (ObjectGraph.assign i) g).objects = g.objects := by
    induction user with
    | nil => exact fun _ => rfl
    | cons data user ih =>
      intro g
      rw [List.foldl_cons, ih]
      rfl
  exact hfold g.users.length (g.insertUsers {})

theorem CatalogueRows.HeldBy.congr {r : CatalogueRows} {g g' : ObjectGraph} (h : r.HeldBy g)
    (hobjects : g'.objects = g.objects) : r.HeldBy g' := by
  have hrows {α : Type} (kind : Kind α) : kind.rows g' = kind.rows g := by
    rw [Kind.rows, hobjects, Kind.rows]
  refine ⟨?_, ?_, ?_⟩
  · rw [Kind.Holds, hrows]
    exact h.offices
  · rw [Kind.Holds, hrows]
    exact h.rooms
  · rw [Kind.Holds, hrows]
    exact h.workplaces

/-- One save adds its rows and leaves those of every other kind alone. -/
theorem StoreSave.perform_holds {r : CatalogueRows} {context : Context ObjectGraph}
    (h : r.HeldBy context.registered) (save : StoreSave) :
    ∃ after, save.perform context = some after ∧
      CatalogueRows.HeldBy ⟨r.offices ++ save.offices, r.rooms ++ save.rooms,
        r.workplaces ++ save.workplaces⟩ after.registered := by
  cases save with
  | saveOfficeData list =>
    have hsave := offices_lawful.save list none context
    refine ⟨_, by rw [perform, ServiceCoreData.saveOfficeData, hsave]; rfl, ?_⟩
    rw [Context.registered_transact]
    exact h.saveOfficeData list none
  | saveRoomsData list =>
    have hsave := rooms_lawful.save list none context
    refine ⟨_, by rw [perform, ServiceCoreData.saveRoomsData, hsave]; rfl, ?_⟩
    rw [Context.registered_transact]
    exact h.saveRoomsData list none
  | saveWorkplaceData list =>
    have hsave := workplaces_lawful.save list none context
    refine ⟨_, by rw [perform, ServiceCoreData.saveWorkplaceData, hsave]; rfl, ?_⟩
    rw [Context.registered_transact]
    exact h.saveWorkplaceData list none
  | saveUser user =>
    refine ⟨_, rfl, ?_⟩
    simp only [offices, rooms, workplaces, List.append_nil]
    exact h.congr (insertUser_objects user context.registered)

theorem store_holds (saves : List StoreSave) :
    ∃ context, store saves = some context ∧ (rowsOf saves).HeldBy context.registered := by
  induction saves using List.reverseRecOn with
  | nil => exact ⟨.opened {}, rfl, Kind.holds_empty _, Kind.holds_empty _, Kind.holds_empty _⟩
  | append_singleton saves save ih =>
    obtain ⟨context, hstore, hheld⟩ := ih
    obtain ⟨after, hperform, hafter⟩ := save.perform_holds hheld
    refine ⟨after, ?_, ?_⟩
    · rw [store_snoc, hstore]
      exact hperform
    · rw [rowsOf_snoc]
      exact hafter

section

variable (saves : List StoreSave) (order : FetchOrder NSManagedObject)

theorem emits_offices : ∃ out, Emits saves (readOfficeData order none) out ∧
    out.Perm (saves.flatMap StoreSave.offices) := by
  obtain ⟨context, hstore, hheld⟩ := store_holds saves
  obtain ⟨out, hread, hperm⟩ := hheld.offices.read order
  exact ⟨out, ⟨context, hstore, hread⟩, hperm⟩

theorem emits_rooms : ∃ out, Emits saves (readRoomsData order none) out ∧
    out.Perm (saves.flatMap StoreSave.rooms) := by
  obtain ⟨context, hstore, hheld⟩ := store_holds saves
  obtain ⟨out, hread, hperm⟩ := hheld.rooms.read order
  exact ⟨out, ⟨context, hstore, hread⟩, hperm⟩

theorem emits_workplaces : ∃ out, Emits saves (readWorkplaceData order none) out ∧
    out.Perm (saves.flatMap StoreSave.workplaces) := by
  obtain ⟨context, hstore, hheld⟩ := store_holds saves
  obtain ⟨out, hread, hperm⟩ := hheld.workplaces.read order
  exact ⟨out, ⟨context, hstore, hread⟩, hperm⟩

end

theorem flatMap_filter_of_nil {α : Type} {f : StoreSave → List α} {p : StoreSave → Bool}
    (hnil : ∀ save, p save = false → f save = []) (saves : List StoreSave) :
    (saves.filter p).flatMap f = saves.flatMap f := by
  induction saves with
  | nil => rfl
  | cons save saves ih =>
    by_cases hp : p save = true
    · rw [List.filter_cons_of_pos hp, List.flatMap_cons, List.flatMap_cons, ih]
    · have hempty := hnil save (Bool.eq_false_iff.mpr hp)
      rw [List.filter_cons_of_neg hp, List.flatMap_cons, ih, hempty, List.nil_append]

theorem emitSame_filter {α : Type} {f : StoreSave → List α}
    {read : FetchOrder NSManagedObject → Context ObjectGraph → Option (List (Rx.Event NSError (List α)))}
    (hemits : ∀ saves order, ∃ out, Emits saves (read order) out ∧ out.Perm (saves.flatMap f))
    {own : StoreSave → Bool} (hown : ∀ save, own save = false → f save = []) (keep : StoreSave → Bool)
    (saves : List StoreSave) (order order' : FetchOrder NSManagedObject) :
    EmitSame saves (saves.filter fun save => own save || keep save) (read order) (read order') := by
  obtain ⟨out, hout, hperm⟩ := hemits saves order
  obtain ⟨out', hout', hperm'⟩ := hemits (saves.filter fun save => own save || keep save) order'
  have hnil (save : StoreSave) (h : (own save || keep save) = false) : f save = [] :=
    hown save (Bool.or_eq_false_iff.mp h).1
  rw [flatMap_filter_of_nil hnil] at hperm'
  exact ⟨out, out', hout, hout', hperm'.trans hperm.symm⟩

/-- The readers emit what their own saves were given, whatever other saves come
in between and whichever of those are left out. -/
theorem catalogue_round_trip (saves : List StoreSave) (order order' : FetchOrder NSManagedObject) :
    (∃ out, Emits saves (readOfficeData order none) out ∧ out.Perm (saves.flatMap StoreSave.offices) ∧
        out.Pairwise fun a b => a.number ≤ b.number) ∧
      (∃ out, Emits saves (readRoomsData order none) out ∧ out.Perm (saves.flatMap StoreSave.rooms)) ∧
      (∃ out, Emits saves (readWorkplaceData order none) out ∧
        out.Perm (saves.flatMap StoreSave.workplaces)) ∧
      ∀ keep : StoreSave → Bool,
        EmitSame saves (saves.filter fun save => save.isSaveOfficeData || keep save)
          (readOfficeData order none) (readOfficeData order' none) ∧
        EmitSame saves (saves.filter fun save => save.isSaveRoomsData || keep save)
          (readRoomsData order none) (readRoomsData order' none) ∧
        EmitSame saves (saves.filter fun save => save.isSaveWorkplaceData || keep save)
          (readWorkplaceData order none) (readWorkplaceData order' none) := by
  have hoffices (save : StoreSave) (h : save.isSaveOfficeData = false) : save.offices = [] := by
    cases save with
    | saveOfficeData _ => exact Bool.noConfusion h
    | _ => rfl
  have hrooms (save : StoreSave) (h : save.isSaveRoomsData = false) : save.rooms = [] := by
    cases save with
    | saveRoomsData _ => exact Bool.noConfusion h
    | _ => rfl
  have hworkplaces (save : StoreSave) (h : save.isSaveWorkplaceData = false) : save.workplaces = [] := by
    cases save with
    | saveWorkplaceData _ => exact Bool.noConfusion h
    | _ => rfl
  refine ⟨?_, emits_rooms saves order, emits_workplaces saves order, fun keep => ⟨?_, ?_, ?_⟩⟩
  · obtain ⟨out, ⟨context, hstore, hread⟩, hperm⟩ := emits_offices saves order
    exact ⟨out, ⟨context, hstore, hread⟩, hperm, readOfficeData_sorted hread⟩
  · exact emitSame_filter emits_offices hoffices keep saves order order'
  · exact emitSame_filter emits_rooms hrooms keep saves order order'
  · exact emitSame_filter emits_workplaces hworkplaces keep saves order order'

end Reservation
