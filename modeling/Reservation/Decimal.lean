import Mathlib.Algebra.Group.Nat.Defs
import Mathlib.Data.Nat.Log
import Mathlib.Data.List.Lex

/-! Decimal numerals compared as texts. Numerals of one length compare as their
numbers do; a longer one compares through its leading digits. -/

namespace Decimal

def numeral (n : Nat) : List Char := Nat.toDigits 10 n

theorem numeral_of_lt {n : Nat} (h : n < 10) : numeral n = [n.digitChar] := Nat.toDigits_of_lt_base h

theorem numeral_of_ge {n : Nat} (h : 10 ≤ n) :
    numeral n = numeral (n / 10) ++ [(n % 10).digitChar] := Nat.toDigits_of_base_le (by decide) h

theorem numeral_length (n : Nat) : (numeral n).length = Nat.log 10 n + 1 := by
  induction n using Nat.strongRecOn with
  | ind n ih =>
    by_cases h : n < 10
    · rw [numeral_of_lt h, Nat.log_of_lt h, List.length_singleton]
    · have hge : 10 ≤ n := Nat.le_of_not_lt h
      have hpos : 0 < Nat.log 10 n := Nat.log_pos (by decide) hge
      have hlog : Nat.log 10 (n / 10) = Nat.log 10 n - 1 := Nat.log_div_base 10 n
      have hrest := ih (n / 10) (by omega)
      rw [numeral_of_ge hge, List.length_append, List.length_singleton, hrest]
      omega

theorem digitChar_lt_iff {a b : Nat} (ha : a < 10) (hb : b < 10) :
    a.digitChar < b.digitChar ↔ a < b := by
  have hall : ∀ a < 10, ∀ b < 10, Nat.digitChar a < Nat.digitChar b ↔ a < b := by decide
  exact hall a ha b hb

theorem append_lt_append_iff {α : Type*} [LT α] {a b : List α} (h : a.length = b.length)
    (c d : List α) : a ++ c < b ++ d ↔ a < b ∨ a = b ∧ c < d := by
  induction a generalizing b with
  | nil =>
    have hb : b = [] := List.length_eq_zero_iff.mp h.symm
    simp [hb]
  | cons x a ih =>
    cases b with
    | nil => simp at h
    | cons y b =>
      have hlen : a.length = b.length := by simpa using h
      simp only [List.cons_append, List.cons_lt_cons_iff, ih hlen, List.cons.injEq]
      constructor
      · rintro (hxy | ⟨rfl, hab | ⟨rfl, hcd⟩⟩)
        · exact .inl (.inl hxy)
        · exact .inl (.inr ⟨rfl, hab⟩)
        · exact .inr ⟨⟨rfl, rfl⟩, hcd⟩
      · rintro ((hxy | ⟨rfl, hab⟩) | ⟨⟨rfl, rfl⟩, hcd⟩)
        · exact .inl hxy
        · exact .inr ⟨rfl, .inl hab⟩
        · exact .inr ⟨rfl, .inr ⟨rfl, hcd⟩⟩

theorem numeral_injective {n m : Nat} (h : numeral n = numeral m) : n = m := by
  have hn : Nat.ofDigitChars 10 (numeral n) 0 = n := Nat.ofDigitChars_ten_toDigits
  have hm : Nat.ofDigitChars 10 (numeral m) 0 = m := Nat.ofDigitChars_ten_toDigits
  rw [← hn, h, hm]

theorem numeral_lt_iff_of_length {n m : Nat} (h : (numeral n).length = (numeral m).length) :
    numeral n < numeral m ↔ n < m := by
  induction n using Nat.strongRecOn generalizing m with
  | ind n ih =>
    have hlog : Nat.log 10 n = Nat.log 10 m := by simpa only [numeral_length, Nat.add_right_cancel_iff] using h
    by_cases hn : n < 10
    · have hm : m < 10 := by
        rw [Nat.log_of_lt hn] at hlog
        have hsmall : m < 10 ∨ 10 ≤ 1 := Nat.log_eq_zero_iff.mp hlog.symm
        omega
      rw [numeral_of_lt hn, numeral_of_lt hm, List.cons_lt_cons_iff, digitChar_lt_iff hn hm]
      simp
    · have hge : 10 ≤ n := Nat.le_of_not_lt hn
      have hge' : 10 ≤ m := by
        have hpos : 0 < Nat.log 10 n := Nat.log_pos (by decide) hge
        by_contra hm
        rw [hlog, Nat.log_of_lt (Nat.lt_of_not_le hm)] at hpos
        exact Nat.lt_irrefl 0 hpos
      have hlen : (numeral (n / 10)).length = (numeral (m / 10)).length := by
        simp only [numeral_length, Nat.log_div_base, hlog]
      have hdigit := digitChar_lt_iff (Nat.mod_lt n (by decide : 10 > 0)) (Nat.mod_lt m (by decide : 10 > 0))
      have heq : numeral (n / 10) = numeral (m / 10) ↔ n / 10 = m / 10 :=
        ⟨numeral_injective, fun he => by rw [he]⟩
      rw [numeral_of_ge hge, numeral_of_ge hge', append_lt_append_iff hlen, ih (n / 10) (by omega) hlen, heq,
        List.cons_lt_cons_iff, hdigit]
      simp only [List.not_lt_nil, and_false, or_false]
      omega

/-- The numeral of a number begins with that of its leading digits. -/
theorem numeral_leading {m k : Nat} (h : 10 ^ k ≤ m) :
    ∃ rest, numeral m = numeral (m / 10 ^ k) ++ rest ∧ rest.length = k := by
  induction k generalizing m with
  | zero => exact ⟨[], by simp, rfl⟩
  | succ k ih =>
    have hpow : 10 ^ (k + 1) = 10 ^ k * 10 := Nat.pow_succ 10 k
    have hpos : 0 < 10 ^ k := Nat.pow_pos (by decide)
    have hge : 10 ≤ m := by omega
    obtain ⟨rest, hrest, hlen⟩ := ih (m := m / 10) (by omega)
    refine ⟨rest ++ [(m % 10).digitChar], ?_, by simp [hlen]⟩
    have hdiv : m / 10 ^ (k + 1) = m / 10 / 10 ^ k := by
      rw [Nat.div_div_eq_div_mul, Nat.pow_succ, Nat.mul_comm]
    rw [numeral_of_ge hge, hrest, hdiv, List.append_assoc]

/-- The smaller of two numbers comes first as a text exactly when the leading
digits of the greater one, as many as the smaller one has, are not below it. -/
theorem numeral_lt_iff {n m : Nat} (h : n < m) :
    numeral n < numeral m ↔ n ≤ m / 10 ^ (Nat.log 10 m - Nat.log 10 n) := by
  have hm : m ≠ 0 := Nat.ne_of_gt (Nat.zero_lt_of_lt h)
  have hlog : Nat.log 10 n ≤ Nat.log 10 m := Nat.log_mono_right h.le
  obtain ⟨rest, hrest, hlen⟩ :=
    numeral_leading (Nat.pow_le_of_le_log hm (Nat.sub_le (Nat.log 10 m) (Nat.log 10 n)))
  have hsame : (numeral n).length = (numeral (m / 10 ^ (Nat.log 10 m - Nat.log 10 n))).length := by
    rw [numeral_length, numeral_length, Nat.log_div_base_pow]
    omega
  have hsplit := append_lt_append_iff hsame [] rest
  rw [List.append_nil, ← hrest, numeral_lt_iff_of_length hsame] at hsplit
  rw [hsplit, Nat.le_iff_lt_or_eq]
  refine or_congr_right ⟨fun he => numeral_injective he.1, fun he => ⟨by rw [← he], ?_⟩⟩
  have hne : rest ≠ [] := by
    rintro rfl
    rw [List.append_nil, ← he] at hrest
    exact Nat.ne_of_gt h (numeral_injective hrest)
  obtain ⟨x, tail, rfl⟩ := List.exists_cons_of_ne_nil hne
  exact List.nil_lt_cons x tail

end Decimal
