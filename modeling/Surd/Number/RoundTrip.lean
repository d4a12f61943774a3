import Surd.Number
import Surd.Number.Encoding

/-!
# Reading what was written

Reading the text of a finite number gives that number (`read?_text`), its sign included.
-/

namespace Surd.Number

/-- The decimal of a pattern below infinity is read back from its text. -/
theorem ofText?_magnitudeText {pattern : Nat} (hfinite : pattern < Binary64.infinity) :
    (Decimal.ofText? (magnitudeText pattern)).map Decimal.nearest = some pattern := by
  rw [magnitudeText, if_neg (Nat.ne_of_lt hfinite)]
  split
  next hzero =>
    subst hzero
    have hread : Decimal.ofText? ['0'] = some ⟨0, 0⟩ := by decide
    rw [hread, Option.map_some, Decimal.nearest, Binary64.nearest_zero]
  next => simp [Decimal.ofText?_toText, Decimal.nearest_shortest hfinite]

/-- The text of a decimal begins with a digit. -/
theorem toText_eq_cons (decimal : Decimal) :
    ∃ c rest, decimal.toText = c :: rest ∧ c.isDigit = true := by
  obtain ⟨c, whole, hdigits⟩ :=
    List.exists_cons_of_ne_nil
      (@Nat.toDigits_ne_nil (decimal.coefficient / Decimal.scale decimal.places) 10)
  have hdigit : c.isDigit = true := Decimal.isDigit_of_mem_toDigits c (by rw [hdigits]; simp)
  unfold Decimal.toText
  rw [hdigits]
  dsimp only
  split
  · exact ⟨c, whole, rfl, hdigit⟩
  · exact ⟨c, _, rfl, hdigit⟩

/-- The text of a finite pattern begins with a digit. -/
theorem magnitudeText_eq_cons {pattern : Nat} (hfinite : pattern < Binary64.infinity) :
    ∃ c rest, magnitudeText pattern = c :: rest ∧ c.isDigit = true := by
  rw [magnitudeText, if_neg (Nat.ne_of_lt hfinite)]
  split
  · exact ⟨'0', [], rfl, rfl⟩
  · exact toText_eq_cons _

/-- A text that begins with a digit is read without a sign. -/
theorem read?_cons_digit {c : Char} {rest : Text} (hdigit : c.isDigit = true) :
    read? (c :: rest) =
      (Decimal.ofText? (c :: rest)).map fun decimal => Binary64.toFloat false decimal.nearest := by
  unfold read?
  split
  next hsign =>
    cases hsign
    cases hdigit
  next hsign =>
    cases hsign
    cases hdigit
  next => rfl

/-- Reading gives back every finite number that was written. -/
theorem read?_text {x : Float} (hfinite : Binary64.pattern x < Binary64.infinity) :
    read? (text x) = some x := by
  have hmagnitude := ofText?_magnitudeText hfinite
  obtain ⟨decimal, hread, hnearest⟩ := Option.map_eq_some_iff.1 hmagnitude
  have hnumber := Binary64.toFloat_pattern x
  unfold text
  dsimp only
  rw [if_neg (by omega)]
  split
  next hnegative =>
    rw [hnegative] at hnumber
    simp [read?, hread, hnearest, hnumber]
  next hpositive =>
    simp only [Bool.not_eq_true] at hpositive
    obtain ⟨c, rest, htext, hdigit⟩ := magnitudeText_eq_cons hfinite
    rw [htext] at hread ⊢
    rw [read?_cons_digit hdigit, hread, Option.map_some, hnearest, ← hpositive, hnumber]

end Surd.Number
