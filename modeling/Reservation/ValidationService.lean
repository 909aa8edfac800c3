import Reservation.RxOperators

/-! Validation of the texts of the login screen. -/

namespace Reservation

/-- An extended grapheme cluster, as the Unicode scalars it is made of. `count`
of a Swift `String` counts these. -/
abbrev Character := List Char

structure Text where
  characters : List Character
  deriving DecidableEq

namespace Text

def count (t : Text) : Nat := t.characters.length

def empty : Text := ⟨[]⟩

def ofScalars (scalars : List Char) : Text := ⟨scalars.map fun c => [c]⟩

end Text

/-- `min` and `max` are the defaults of the source, which no caller overrides.
The two filters are followed by `asSignal(onErrorJustReturn:)`, which changes
nothing because a text field never fails. -/
def validationUser (text : Text) (min : Nat := 3) (max : Nat := 20) : Option Text :=
  (Rx.filter (fun t : Text => decide (t.count ≥ min)) text).bind
    (Rx.filter fun t : Text => decide (t.count < max))

def Text.isValid (t : Text) : Bool := decide (3 ≤ t.count) && decide (t.count < 20)

theorem Text.isValid_iff {t : Text} : t.isValid = true ↔ 3 ≤ t.count ∧ t.count < 20 := by
  simp [isValid]

theorem validationUser_eq (t : Text) : validationUser t = Rx.filter Text.isValid t := by
  by_cases h₁ : 3 ≤ t.count <;> by_cases h₂ : t.count < 20 <;>
    simp [validationUser, Rx.filter, Text.isValid, h₁, h₂]

end Reservation
