import Mathlib.Data.List.Perm.Basic
import Mathlib.Order.WithBot

/-! A managed object context over a persistent store. Edits stay pending in the
context until a save that does not throw; a fetch returns pending and persisted
rows alike, in an order of the store's choosing unless it is asked to sort. -/

namespace ManagedObjects

variable {γ ε α β : Type*}

structure Context (γ : Type*) where
  registered : γ
  persisted : γ
  deriving DecidableEq

namespace Context

def opened (store : γ) : Context γ := ⟨store, store⟩

def edit (context : Context γ) (f : γ → γ) : Context γ :=
  { context with registered := f context.registered }

def save (context : Context γ) : Option ε → Except ε (Context γ)
  | none => .ok { context with persisted := context.registered }
  | some error => .error error

def transact (context : Context γ) (f : γ → γ) (error : Option ε) : Context γ :=
  match (context.edit f).save error with
  | .ok saved => saved
  | .error _ => context.edit f

@[simp] theorem registered_transact (context : Context γ) (f : γ → γ) (error : Option ε) :
    (context.transact f error).registered = f context.registered := by
  cases error <;> rfl

theorem persisted_transact (context : Context γ) (f : γ → γ) {error : Option ε} (h : error.isNone = true) :
    (context.transact f error).persisted = (context.transact f error).registered := by
  obtain rfl := Option.isNone_iff_eq_none.mp h
  rfl

end Context

structure FetchOrder (α : Type*) where
  arrange : List α → List α
  perm : ∀ rows, (arrange rows).Perm rows

namespace FetchOrder

def insertion : FetchOrder α := ⟨id, List.Perm.refl⟩

/-- A sort descriptor leaves the store the choice between rows it does not tell apart. -/
def sorted (order : FetchOrder α) (le : α → α → Bool) : FetchOrder α where
  arrange rows := (order.arrange rows).mergeSort le
  perm rows := (List.mergeSort_perm _ _).trans (order.perm rows)

end FetchOrder

def fetch (order : FetchOrder α) (rows : List α) : Option ε → Except ε (List α)
  | none => .ok (order.arrange rows)
  | some error => .error error

theorem mapM_eq_some_iff {decode : α → Option β} {rows : List α} {out : List β} :
    rows.mapM decode = some out ↔ (∀ row ∈ rows, (decode row).isSome) ∧ out = rows.filterMap decode := by
  induction rows generalizing out with
  | nil => simp
  | cons row rows ih =>
    cases hd : decode row with
    | none => simp [hd]
    | some value =>
      simp only [List.mapM_cons, hd, Option.bind_eq_bind, Option.bind_some, Option.pure_def,
        Option.bind_eq_some_iff, ih, Option.some.injEq, List.forall_mem_cons, Option.isSome_some, true_and,
        List.filterMap_cons]
      constructor
      · rintro ⟨rest, ⟨hrest, rfl⟩, rfl⟩
        exact ⟨hrest, rfl⟩
      · rintro ⟨hrest, rfl⟩
        exact ⟨_, ⟨hrest, rfl⟩, rfl⟩

theorem fetched_isSome_iff (order : FetchOrder α) (decode : α → Option β) (rows : List α) :
    ((order.arrange rows).mapM decode).isSome ↔ ∀ row ∈ rows, (decode row).isSome := by
  simp only [Option.isSome_iff_exists, mapM_eq_some_iff, (order.perm rows).mem_iff]
  exact ⟨fun ⟨_, h, _⟩ => h, fun h => ⟨_, h, rfl⟩⟩

theorem fetched_perm {order : FetchOrder α} {decode : α → Option β} {rows : List α} {out : List β}
    (h : (order.arrange rows).mapM decode = some out) : out.Perm (rows.filterMap decode) := by
  rw [(mapM_eq_some_iff.mp h).2]
  exact (order.perm rows).filterMap decode

theorem sorted_pairwise {κ : Type*} [LinearOrder κ] {order : FetchOrder α} {le : α → α → Bool}
    {key : α → κ} {rows : List α} (hle : ∀ a ∈ rows, ∀ b ∈ rows, le a b = decide (key a ≤ key b)) :
    ((order.sorted le).arrange rows).Pairwise fun a b => key a ≤ key b := by
  let byKey : α → α → Bool := fun a b => decide (key a ≤ key b)
  have hsort : (order.arrange rows).mergeSort le = (order.arrange rows).mergeSort byKey := by
    have hmem : ∀ a ∈ order.arrange rows, ∀ b ∈ order.arrange rows, le a b = byKey (id a) (id b) :=
      fun a ha b hb => hle a ((order.perm rows).mem_iff.mp ha) b ((order.perm rows).mem_iff.mp hb)
    simpa using List.map_mergeSort hmem
  have htrans : ∀ a b c, byKey a b → byKey b c → byKey a c := by
    intro a b c hab hbc
    exact decide_eq_true ((of_decide_eq_true hab).trans (of_decide_eq_true hbc))
  have htotal : ∀ a b, byKey a b || byKey b a := by
    intro a b
    simpa [byKey] using le_total (key a) (key b)
  have hpairwise := List.pairwise_mergeSort htrans htotal (order.arrange rows)
  change ((order.arrange rows).mergeSort le).Pairwise _
  rw [hsort]
  exact hpairwise.imp of_decide_eq_true

/-- What a sorted fetch decodes to is sorted, if the sort descriptor compares
rows as their values compare. -/
theorem fetched_sorted {κ : Type*} [LinearOrder κ] {order : FetchOrder α} {le : α → α → Bool}
    {decode : α → Option β} {key : β → κ} {rows : List α} {out : List β}
    (hle : ∀ a b x y, decode a = some x → decode b = some y → le a b = decide (key x ≤ key y))
    (h : ((order.sorted le).arrange rows).mapM decode = some out) :
    out.Pairwise fun x y => key x ≤ key y := by
  obtain ⟨hsome, rfl⟩ := mapM_eq_some_iff.mp h
  let rowKey : α → WithBot κ := fun a => (decode a).map key
  have hrowKey {a : α} {x : β} (hx : decode a = some x) : rowKey a = (key x : κ) := by
    simp only [rowKey, hx]
    rfl
  have hrows : ∀ a ∈ rows, ∀ b ∈ rows, le a b = decide (rowKey a ≤ rowKey b) := by
    intro a ha b hb
    obtain ⟨x, hx⟩ := Option.isSome_iff_exists.mp (hsome a (((order.sorted le).perm rows).mem_iff.mpr ha))
    obtain ⟨y, hy⟩ := Option.isSome_iff_exists.mp (hsome b (((order.sorted le).perm rows).mem_iff.mpr hb))
    rw [hle a b x y hx hy, hrowKey hx, hrowKey hy]
    exact decide_eq_decide.mpr WithBot.coe_le_coe.symm
  refine (sorted_pairwise hrows).filterMap decode ?_
  intro a b hab x hx y hy
  rw [hrowKey hx, hrowKey hy] at hab
  exact WithBot.coe_le_coe.mp hab

end ManagedObjects
