import Surd.Proofs.Number.Zero
import Surd.Proofs.Token.Reading

/-!
# The text of a result

A finite result is written with digits and at most a point, and a minus sign in front if the number
is negative. Zero has no sign in a result, so that every finite number but negative zero is read
back from its result, which is the text of a number (`Number.numberText_result`).
-/

namespace Surd

namespace Number

open Front

/-- The text of a decimal has digits and at most a point. -/
theorem isNumeric_of_mem_toText {decimal : Decimal} {c : Char} (hc : c ∈ decimal.toText) :
    isNumeric c = true := by
  have hdigit (hmem : c.isDigit = true) : isNumeric c = true := by simp [isNumeric, hmem]
  unfold Decimal.toText at hc
  dsimp only at hc
  split at hc
  · exact hdigit (Decimal.isDigit_of_mem_toDigits c hc)
  · rw [List.mem_append, List.mem_cons] at hc
    rcases hc with hc | rfl | hc
    · exact hdigit (Decimal.isDigit_of_mem_toDigits c hc)
    · decide
    · exact hdigit (Decimal.isDigit_of_mem_padded c hc)

/-- The text of a finite pattern has digits and at most a point. -/
theorem isNumeric_of_mem_magnitudeText {pattern : Nat} (hfinite : pattern < Binary64.infinity)
    {c : Char} (hc : c ∈ magnitudeText pattern) : isNumeric c = true := by
  rw [magnitudeText, if_neg hfinite.ne] at hc
  split at hc
  · rw [List.mem_singleton.mp hc]
    decide
  · exact isNumeric_of_mem_toText hc

/-- A finite result is written with digits and at most a point, and a minus sign in front if the
number is negative. -/
theorem exists_result_eq {x : Float} (hfinite : Binary64.pattern x < Binary64.infinity) :
    ∃ sign body, result x = sign ++ body ∧
      (sign = [] ∨ sign = ['-'] ∧ Binary64.isNegative x = true) ∧ body ≠ [] ∧
      ∀ c ∈ body, isNumeric c = true := by
  have hmagnitude : magnitudeText (Binary64.pattern x) ≠ [] := by
    obtain ⟨c, rest, htext, -⟩ := magnitudeText_eq_cons hfinite
    rw [htext]
    exact List.cons_ne_nil _ _
  have hnumeric : ∀ c ∈ magnitudeText (Binary64.pattern x), isNumeric c = true :=
    fun c => isNumeric_of_mem_magnitudeText hfinite
  rw [result]
  split
  · refine ⟨[], ['0'], rfl, .inl rfl, List.cons_ne_nil _ _, fun c hc => ?_⟩
    rw [List.mem_singleton.mp hc]
    decide
  · have hnumber : ¬ Binary64.infinity < Binary64.pattern x := by omega
    unfold text
    dsimp only
    rw [if_neg hnumber]
    split
    next hnegative => exact ⟨['-'], _, rfl, .inr ⟨rfl, hnegative⟩, hmagnitude, hnumeric⟩
    next => exact ⟨[], _, rfl, .inl rfl, hmagnitude, hnumeric⟩

/-- The text of a zero is read as the zero without a sign. -/
theorem read?_zero : read? ['0'] = some (Binary64.toFloat false 0) := by
  have hread : Decimal.ofText? ['0'] = some ⟨0, 0⟩ := by decide
  simp [read?, hread, Decimal.nearest, Binary64.nearest_zero]

/-- Every finite number but negative zero is read back from its result. -/
theorem read?_result {x : Float} (hfinite : Binary64.pattern x < Binary64.infinity)
    (hzero : x ≠ Binary64.toFloat true 0) : read? (result x) = some x := by
  rw [result]
  split
  next hbeq =>
    obtain ⟨negative, rfl⟩ := Binary64.beq_zero_iff.mp hbeq
    cases negative with
    | false => exact read?_zero
    | true => exact absurd rfl hzero
  next => exact read?_text hfinite

/-- Zeros of either sign are written without one. -/
theorem result_of_isZero {x : Float} (hzero : Binary64.IsZero x) : result x = ['0'] := by
  rw [result, if_pos (Binary64.beq_zero_iff.mpr hzero)]

/-- Other negative numbers are written like their opposites with a minus sign in front. -/
theorem result_toFloat_true {pattern : Nat} (hpos : 0 < pattern)
    (hfinite : pattern < Binary64.infinity) :
    result (Binary64.toFloat true pattern) = '-' :: result (Binary64.toFloat false pattern) := by
  have hzero (negative : Bool) : ¬ (Binary64.toFloat negative pattern == 0) = true := by
    rw [Binary64.beq_zero_iff, Binary64.isZero_toFloat_iff hfinite.le]
    omega
  have hnumber : ¬ Binary64.infinity < pattern := by omega
  rw [result, if_neg (hzero true), result, if_neg (hzero false)]
  simp only [text, Binary64.pattern_toFloat hfinite.le, Binary64.isNegative_toFloat hfinite.le,
    if_neg hnumber, if_true, if_neg Bool.false_ne_true]

/-- The result of a finite number but negative zero is the text of that number, where a sign is
allowed if the number has one. -/
theorem numberText_result {x : Float} {allowed : Bool}
    (hfinite : Binary64.pattern x < Binary64.infinity) (hzero : x ≠ Binary64.toFloat true 0)
    (hallowed : Binary64.isNegative x = true → allowed = true) :
    NumberText allowed (result x) x := by
  obtain ⟨sign, body, htext, hsign, hne, hbody⟩ := exists_result_eq hfinite
  have hread := read?_result hfinite hzero
  rw [htext] at hread ⊢
  have hsign' : sign = [] ∨ sign = ['-'] ∧ allowed = true :=
    hsign.imp_right fun h => ⟨h.1, hallowed h.2⟩
  have hplain := NumberText.intro false hsign' hne hbody hread
  rwa [if_neg Bool.false_ne_true, if_neg Bool.false_ne_true, List.append_nil] at hplain

end Number

end Surd
