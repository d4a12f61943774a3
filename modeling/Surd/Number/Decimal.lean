import Surd.Text
import Surd.Number.Binary64

/-!
# Decimals

A decimal is a whole number of units of a power of ten. It is written without an exponent, with a
point where there are decimal places, and read from digits with at most one point; reading gives
back what was written (`ofText?_toText`). A finite binary64 number is written by the decimal on
the coarsest grid that has a point which rounds to it; as the finest grid that is tried holds the
number itself, the decimal found always rounds to the number (`nearest_shortest`).
-/

namespace Surd

/-- The decimal `coefficient / 10 ^ places`. -/
structure Decimal where
  coefficient : Nat
  places : Nat
  deriving DecidableEq, Repr

namespace Decimal

/-- Ten to the power of a number of places. -/
def scale (places : Nat) : Nat := Nat.pow 10 places

/-- Without places the scale is one. -/
theorem scale_zero : scale 0 = 1 := rfl

/-- A scale is positive, so it can be divided by. -/
theorem scale_pos (places : Nat) : 0 < scale places := Nat.pow_pos (by decide)

/-- The digits of a number, with zeros in front up to a given count of digits. -/
def padded (places n : Nat) : Text :=
  List.replicate (places - (Nat.toDigits 10 n).length) '0' ++ Nat.toDigits 10 n

/-- The whole part, and after a point the decimal places if there are any. -/
def toText (decimal : Decimal) : Text :=
  let whole := Nat.toDigits 10 (decimal.coefficient / scale decimal.places)
  if decimal.places = 0 then whole
  else whole ++ '.' :: padded decimal.places (decimal.coefficient % scale decimal.places)

/-- Reads digits with at most one point, which may stand first or last; there is at least one
digit. -/
def ofText? (text : Text) : Option Decimal :=
  let whole := text.takeWhile Char.isDigit
  match text.dropWhile Char.isDigit with
  | [] => if whole = [] then none else some ⟨Nat.ofDigitChars 10 whole 0, 0⟩
  | '.' :: part =>
    if part.all Char.isDigit ∧ whole ++ part ≠ [] then
      some ⟨Nat.ofDigitChars 10 (whole ++ part) 0, part.length⟩
    else none
  | _ => none

/-- A number is written with digits only. -/
theorem isDigit_of_mem_toDigits {n : Nat} : ∀ c ∈ Nat.toDigits 10 n, c.isDigit = true :=
  fun _ => Nat.isDigit_of_mem_toDigits (by decide) (by decide)

/-- Padding adds nothing but digits. -/
theorem isDigit_of_mem_padded {places n : Nat} : ∀ c ∈ padded places n, c.isDigit = true := by
  intro c h
  rcases List.mem_append.1 h with h | h
  · rw [(List.mem_replicate.1 h).2]
    rfl
  · exact isDigit_of_mem_toDigits c h

/-- A number with at most `places` digits is padded to exactly so many. -/
theorem length_padded {places n : Nat} (hplaces : 0 < places) (hn : n < scale places) :
    (padded places n).length = places := by
  have := (Nat.length_toDigits_le_iff (by decide) hplaces).2 hn
  simp only [padded, List.length_append, List.length_replicate]
  omega

/-- Padding does not change the number that the digits stand for. -/
theorem ofDigitChars_padded (places n : Nat) : Nat.ofDigitChars 10 (padded places n) 0 = n := by
  simp [padded, Nat.ofDigitChars_append]

/-- Reading gives back what was written. -/
theorem ofText?_toText (decimal : Decimal) : ofText? decimal.toText = some decimal := by
  obtain ⟨coefficient, places⟩ := decimal
  by_cases h : places = 0
  · subst h
    have hdigits := isDigit_of_mem_toDigits (n := coefficient)
    have hall :
        (Nat.toDigits 10 coefficient).takeWhile Char.isDigit = Nat.toDigits 10 coefficient := by
      simpa using @List.takeWhile_append_of_pos _ _ _ [] hdigits
    have hrest : (Nat.toDigits 10 coefficient).dropWhile Char.isDigit = [] := by
      simpa using @List.dropWhile_append_of_pos _ _ _ [] hdigits
    simp [toText, ofText?, hall, hrest, scale_zero]
  · have hsmall : coefficient % scale places < scale places := Nat.mod_lt _ (scale_pos places)
    have hlength := length_padded (Nat.pos_of_ne_zero h) hsmall
    have hdigits := isDigit_of_mem_toDigits (n := coefficient / scale places)
    have hall : (padded places (coefficient % scale places)).all Char.isDigit = true :=
      List.all_eq_true.2 isDigit_of_mem_padded
    have hvalue : Nat.ofDigitChars 10 (Nat.toDigits 10 (coefficient / scale places) ++
        padded places (coefficient % scale places)) 0 = coefficient := by
      rw [Nat.ofDigitChars_append, Nat.ofDigitChars_eq_ofDigitChars_zero, hlength,
        ofDigitChars_padded, Nat.ofDigitChars_ten_toDigits]
      exact Nat.div_add_mod coefficient (scale places)
    simp [toText, ofText?, h, List.takeWhile_append_of_pos hdigits,
      List.dropWhile_append_of_pos hdigits, hall, hlength, hvalue]

/-- The pattern of the binary64 number nearest to a decimal. -/
def nearest (decimal : Decimal) : Nat :=
  Binary64.nearest decimal.coefficient (scale decimal.places)

/-- The decimal places of the finest grid, on which the unit of binary64 lies, and so every finite
number. -/
def finestPlaces : Nat := Binary64.unitExponent

/-- A finite pattern in units of the finest grid. -/
def fine (pattern : Nat) : Nat := Binary64.units pattern * (scale finestPlaces / Binary64.one)

/-- The decimal of `n` steps on a grid; a step of the next level is ten times as long, and one of
level zero is the unit of the finest grid. -/
def onGrid (level n : Nat) : Decimal := ⟨n * scale (level - finestPlaces), finestPlaces - level⟩

/-- The two neighbours on a grid of a number of units of the finest grid: first the nearer one, and
of two that are equally near the upper one. -/
def neighbours (level value : Nat) : List Decimal :=
  let below := value / scale level
  if 2 * (value % scale level) < scale level then [onGrid level below, onGrid level (below + 1)]
  else [onGrid level (below + 1), onGrid level below]

/-- The first decimal that rounds to the pattern on the grids from `level` down to the finest, where
it is the exact `value`. -/
def shortestFrom (pattern value : Nat) : Nat → Decimal
  | 0 => onGrid 0 value
  | level + 1 =>
    ((neighbours (level + 1) value).find? (·.nearest = pattern)).getD
      (shortestFrom pattern value level)

/-- The decimal with the fewest digits that rounds to a finite pattern, and of these the nearest to
it, a tie going up. The search starts on a grid whose step exceeds the number, since three tenths
and a little more of the binary digits of a number bound its decimal digits. -/
def shortest (pattern : Nat) : Decimal :=
  shortestFrom pattern (fine pattern) (Nat.log2 (fine pattern) * 30103 / 100000 + 2)

/-- The unit of binary64 is a whole number of units of the finest grid. -/
theorem one_mul_scale_div :
    Binary64.one * (scale finestPlaces / Binary64.one) = scale finestPlaces := by
  apply Nat.mul_div_cancel'
  rw [Binary64.one, Nat.one_shiftLeft, scale, finestPlaces]
  generalize Binary64.unitExponent = places
  exact ⟨5 ^ places, Nat.mul_pow 2 5 places⟩

/-- On the finest grid every finite pattern has its exact value. -/
theorem nearest_fine {pattern : Nat} (hfinite : pattern < Binary64.infinity) :
    (onGrid 0 (fine pattern)).nearest = pattern := by
  have hsteps : 0 < scale finestPlaces / Binary64.one := by
    apply Nat.pos_of_ne_zero
    intro hzero
    have hwhole := one_mul_scale_div
    rw [hzero, Nat.mul_zero] at hwhole
    exact absurd hwhole (Nat.ne_of_lt (scale_pos finestPlaces))
  calc
    (onGrid 0 (fine pattern)).nearest = Binary64.nearest (fine pattern) (scale finestPlaces) := by
      simp only [nearest, onGrid, Nat.zero_sub, Nat.sub_zero, scale_zero, Nat.mul_one]
    _ = Binary64.nearest (fine pattern) (Binary64.one * (scale finestPlaces / Binary64.one)) :=
      congrArg (Binary64.nearest _) one_mul_scale_div.symm
    _ = pattern := Binary64.nearest_units hfinite hsteps

/-- The decimal chosen for a finite pattern rounds to it. -/
theorem nearest_shortest {pattern : Nat} (hfinite : pattern < Binary64.infinity) :
    (shortest pattern).nearest = pattern := by
  have hlevel (level : Nat) : (shortestFrom pattern (fine pattern) level).nearest = pattern := by
    induction level with
    | zero => exact nearest_fine hfinite
    | succ level ih =>
      rw [shortestFrom]
      cases hfound : (neighbours (level + 1) (fine pattern)).find? (·.nearest = pattern) with
      | some decimal => simpa using List.find?_some hfound
      | none => exact ih
  exact hlevel _

end Decimal

end Surd
