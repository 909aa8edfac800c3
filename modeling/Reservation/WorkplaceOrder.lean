import Reservation.Catalogue
import Reservation.Decimal

/-! The order in which workplaces come back. Their numbers are texts, so the sort
descriptor on `number` compares them as texts. -/

namespace Reservation

open ManagedObjects ServiceCoreData

/-- The format of the workplace data of the app. -/
def numberText (n : Nat) : String := "№" ++ toString n

theorem numberText_toList (n : Nat) : (numberText n).toList = '№' :: Decimal.numeral n := by
  simp [numberText, Decimal.numeral]

theorem numberText_lt_iff {n m : Nat} (h : n < m) :
    numberText n < numberText m ↔ n ≤ m / 10 ^ (Nat.log 10 m - Nat.log 10 n) := by
  rw [String.lt_iff_toList_lt, numberText_toList, numberText_toList, List.cons_lt_cons_iff,
    ← Decimal.numeral_lt_iff h]
  simp

theorem numberText_injective {n m : Nat} (h : numberText n = numberText m) : n = m := by
  have hlists := congrArg String.toList h
  rw [numberText_toList, numberText_toList] at hlists
  exact Decimal.numeral_injective (List.cons.inj hlists).2

/-- Saved on an empty store, the list is read back by increasing numbers. -/
def InNumberOrder (order : FetchOrder NSManagedObject) (workplace : List WorkPlace)
    (integer : WorkPlace → Nat) : Prop :=
  ∃ context out, saveWorkplaceData workplace none (.opened {}) = some (context, [.next (), .completed]) ∧
    readWorkplaceData order none context = some [.next out, .completed] ∧ out.Perm workplace ∧
    out.Pairwise fun a b => integer a < integer b

theorem workplaces_read_back (order : FetchOrder NSManagedObject) (workplace : List WorkPlace) :
    ∃ context out, saveWorkplaceData workplace none (.opened {}) = some (context, [.next (), .completed]) ∧
      readWorkplaceData order none context = some [.next out, .completed] ∧ out.Perm workplace ∧
      out.Pairwise fun a b => a.number ≤ b.number := by
  let add (g : ObjectGraph) : ObjectGraph := { g with objects := g.objects ++ workplace.map WorkPlace.object }
  let context : Context ObjectGraph := Context.transact (.opened {}) add (none : Option NSError)
  have hsave : saveWorkplaceData workplace none (.opened {}) = some (context, [.next (), .completed]) :=
    workplaces_lawful.save workplace none (.opened {})
  have hholds : workplacesKind.Holds context.registered workplace :=
    workplaces_lawful.holds_append (Kind.holds_empty workplacesKind) workplace
  obtain ⟨out, hread, hperm⟩ := hholds.read order
  exact ⟨context, out, hsave, hread, hperm, readWorkplaceData_sorted hread⟩

/-- In a list sorted both ways the two orders agree. -/
theorem number_le_of_mem {workplace : List WorkPlace} {integer : WorkPlace → Nat}
    (htexts : workplace.Pairwise fun a b => a.number ≤ b.number)
    (hnumbers : workplace.Pairwise fun a b => integer a < integer b) :
    ∀ a ∈ workplace, ∀ b ∈ workplace, integer a < integer b → a.number ≤ b.number := by
  have hboth := htexts.and hnumbers
  apply List.Pairwise.forall_of_forall_of_flip
  · exact fun x _ hlt => absurd hlt (Nat.lt_irrefl _)
  · exact hboth.imp fun h _ => h.1
  · exact hboth.imp fun h hlt => absurd hlt (Nat.not_lt_of_gt h.2)

/-- The workplaces come back by increasing numbers exactly when no number of the
list is above the leading digits of a greater one. -/
theorem workplaces_in_number_order_iff {workplace : List WorkPlace} {integer : WorkPlace → Nat}
    (hformat : ∀ work ∈ workplace, 0 < integer work ∧ work.number = numberText (integer work))
    (hdistinct : (workplace.map integer).Nodup) (order : FetchOrder NSManagedObject) :
    InNumberOrder order workplace integer ↔
      ∀ a ∈ workplace, ∀ b ∈ workplace, integer a < integer b →
        integer a ≤ integer b / 10 ^ (Nat.log 10 (integer b) - Nat.log 10 (integer a)) := by
  obtain ⟨context, out, hsave, hread, hperm, hsorted⟩ := workplaces_read_back order workplace
  have htexts {a b : WorkPlace} (ha : a ∈ workplace) (hb : b ∈ workplace) (h : integer a < integer b) :
      a.number < b.number ↔
        integer a ≤ integer b / 10 ^ (Nat.log 10 (integer b) - Nat.log 10 (integer a)) := by
    rw [(hformat a ha).2, (hformat b hb).2]
    exact numberText_lt_iff h
  constructor
  · rintro ⟨context', out', hsave', hread', _, hnumbers⟩ a ha b hb hab
    obtain rfl : context = context' := by
      rw [hsave] at hsave'
      exact (Prod.mk.inj (Option.some.inj hsave')).1
    obtain rfl : out = out' := by
      rw [hread] at hread'
      simpa using hread'
    have hle := number_le_of_mem hsorted hnumbers a (hperm.mem_iff.mpr ha) b (hperm.mem_iff.mpr hb) hab
    have hne : a.number ≠ b.number := by
      rw [(hformat a ha).2, (hformat b hb).2]
      exact fun he => Nat.ne_of_lt hab (numberText_injective he)
    exact (htexts ha hb hab).mp (lt_of_le_of_ne hle hne)
  · intro hall
    refine ⟨context, out, hsave, hread, hperm, ?_⟩
    have hdistinct' : out.Pairwise fun a b => integer a ≠ integer b :=
      List.pairwise_map.mp ((hperm.map integer).nodup_iff.mpr hdistinct)
    refine (hsorted.and hdistinct').imp_of_mem ?_
    rintro a b ha hb ⟨hle, hneq⟩
    by_contra hnot
    have hlt : integer b < integer a := by omega
    have hb' := hperm.mem_iff.mp hb
    have ha' := hperm.mem_iff.mp ha
    exact absurd ((htexts hb' ha' hlt).mpr (hall b hb' a ha' hlt)) (not_lt_of_ge hle)

def numbered (n : Nat) : WorkPlace := ⟨"Рабочее место", numberText n, true⟩

/-- The number that a text of this format stands for. -/
def integerOf (work : WorkPlace) : Nat := Nat.ofDigitChars 10 work.number.toList.tail 0

theorem integerOf_numbered (n : Nat) : integerOf (numbered n) = n := by
  rw [integerOf, numbered, numberText_toList, List.tail_cons]
  exact Nat.ofDigitChars_ten_toDigits

theorem numbered_format (numbers : List Nat) (hpos : ∀ n ∈ numbers, 0 < n) :
    ∀ work ∈ numbers.map numbered, 0 < integerOf work ∧ work.number = numberText (integerOf work) := by
  intro work hwork
  obtain ⟨n, hn, rfl⟩ := List.mem_map.mp hwork
  rw [integerOf_numbered]
  exact ⟨hpos n hn, rfl⟩

theorem leading_digits_in_order : InNumberOrder .insertion ([12, 1, 10].map numbered) integerOf := by
  apply (workplaces_in_number_order_iff (numbered_format [12, 1, 10] (by decide)) _ _).mpr
  · have hnumbers : ∀ n ∈ [12, 1, 10], ∀ m ∈ [12, 1, 10], n < m →
        n ≤ m / 10 ^ (Nat.log 10 m - Nat.log 10 n) := by decide
    simpa only [List.forall_mem_map, integerOf_numbered] using hnumbers
  · simp [integerOf_numbered]

theorem ten_before_two :
    ¬ ∀ (order : FetchOrder NSManagedObject) (workplace : List WorkPlace) (integer : WorkPlace → Nat),
      (∀ work ∈ workplace, 0 < integer work ∧ work.number = numberText (integer work)) →
      (workplace.map integer).Nodup → InNumberOrder order workplace integer := by
  intro h
  obtain ⟨context, out, _, hread, hperm, hnumbers⟩ :=
    h .insertion ([2, 10].map numbered) integerOf (numbered_format [2, 10] (by decide))
      (by simp [integerOf_numbered])
  have hle := number_le_of_mem (readWorkplaceData_sorted hread) hnumbers
    (numbered 2) (hperm.mem_iff.mpr (by simp)) (numbered 10) (hperm.mem_iff.mpr (by simp))
    (by simp [integerOf_numbered])
  change numberText 2 ≤ numberText 10 at hle
  exact absurd hle (by decide)

end Reservation
