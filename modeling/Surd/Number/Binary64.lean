/-!
# Rounding to binary64

A finite binary64 number without its sign is a whole number of units of `2 ^ -1074`. Its pattern,
the low 63 bits of its encoding, grows with it, so both rounding a quotient to a pattern and
reading a pattern as units are arithmetic on natural numbers. `nearest_units` says that rounding
gives every finite pattern back from its exact value.
-/

namespace Surd.Binary64

/-- The unit is the smallest positive number, `2 ^ -unitExponent`. -/
def unitExponent : Nat := 1074

/-- The number one, in units. -/
def one : Nat := 1 <<< unitExponent

/-- The pattern of infinity, one above the pattern of the largest finite number. -/
def infinity : Nat := 2047 <<< 52

/-- The number one is a positive number of units. -/
theorem one_pos : 0 < one := by
  rw [one, Nat.one_shiftLeft]
  exact Nat.two_pow_pos unitExponent

/-- How many times the significand of a pattern is doubled to give its units. -/
def shift (pattern : Nat) : Nat := pattern >>> 52 - 1

/-- The number of units that a finite pattern stands for. -/
def units (pattern : Nat) : Nat := (pattern - shift pattern <<< 52) <<< shift pattern

/-- A quotient rounded to a whole number, to the even one if two are equally near. -/
def roundEven (num den : Nat) : Nat :=
  let below := num / den
  let rest := num % den
  if 2 * rest < den then below
  else if den < 2 * rest then below + 1
  else below + below % 2

/-- The pattern of the binary64 number nearest to `num / den`; of two that are equally near the one
with even significand, and infinity from half a step above the largest finite number on. -/
def nearest (num den : Nat) : Nat :=
  let scaled := num * one
  let shift := Nat.log2 (scaled / den) - 52
  min infinity (shift <<< 52 + roundEven scaled (den <<< shift))

/-- An exact quotient is not changed by rounding. -/
theorem roundEven_mul {den : Nat} (h : 0 < den) (n : Nat) : roundEven (n * den) den = n := by
  simp [roundEven, Nat.mul_div_cancel n h, h]

/-- The significand of a pattern has at most 53 bits, and exactly so many unless it is not
doubled. -/
theorem significand_bounds (pattern : Nat) :
    shift pattern <<< 52 ≤ pattern ∧ pattern - shift pattern <<< 52 < 1 <<< 53 ∧
      (shift pattern = 0 ∨ 1 <<< 52 ≤ pattern - shift pattern <<< 52) := by
  simp only [shift, Nat.shiftLeft_eq, Nat.shiftRight_eq_div_pow]
  omega

/-- The number of doublings can be read off the units. -/
theorem log2_units (pattern : Nat) : Nat.log2 (units pattern) - 52 = shift pattern := by
  obtain ⟨-, hhigh, hlow⟩ := significand_bounds pattern
  have hunits : units pattern = (pattern - shift pattern <<< 52) * 2 ^ shift pattern :=
    Nat.shiftLeft_eq _ _
  have hbelow : units pattern < 2 ^ (53 + shift pattern) := by
    rw [hunits, Nat.pow_add]
    exact (Nat.mul_lt_mul_right (Nat.two_pow_pos _)).2 hhigh
  by_cases hzero : units pattern = 0
  · have hpos := Nat.two_pow_pos (shift pattern)
    rcases Nat.mul_eq_zero.1 (hunits.symm.trans hzero) with hsignificand | hdoubled
    · rcases hlow with hshift | hlow
      · simp [hzero, hshift]
      · omega
    · omega
  · have hupper : Nat.log2 (units pattern) < 53 + shift pattern := (Nat.log2_lt hzero).2 hbelow
    rcases hlow with hshift | hlow
    · omega
    · have habove : 2 ^ (52 + shift pattern) ≤ units pattern := by
        rw [hunits, Nat.pow_add]
        exact Nat.mul_le_mul_right _ hlow
      have hlower := (Nat.le_log2 hzero).2 habove
      omega

/-- Rounding gives every finite pattern back from its exact value, however the quotient that states
the value is expanded. -/
theorem nearest_units {pattern den : Nat} (hfinite : pattern < infinity) (hden : 0 < den) :
    nearest (units pattern * den) (one * den) = pattern := by
  have hscaled : units pattern * den * one = units pattern * (one * den) := by
    rw [Nat.mul_assoc, Nat.mul_comm den]
  have hpos : 0 < one * den := Nat.mul_pos one_pos hden
  have hexact : units pattern * (one * den) =
      (pattern - shift pattern <<< 52) * (one * den) <<< shift pattern := by
    rw [units, Nat.shiftLeft_eq _ (shift pattern), Nat.shiftLeft_eq _ (shift pattern),
      Nat.mul_assoc, Nat.mul_comm (2 ^ shift pattern)]
  have hdoubled : 0 < (one * den) <<< shift pattern := by
    rw [Nat.shiftLeft_eq]
    exact Nat.mul_pos hpos (Nat.two_pow_pos _)
  have hle := (significand_bounds pattern).1
  simp only [nearest, hscaled, Nat.mul_div_cancel _ hpos, log2_units]
  rw [hexact, roundEven_mul hdoubled]
  omega

/-- Zero is rounded to zero. -/
theorem nearest_zero (den : Nat) : nearest 0 den = 0 := by
  have hlog : Nat.log2 0 = 0 := by decide
  simp [nearest, roundEven, hlog]

/-- The sign bit of an encoding, which stands above its pattern. -/
def signBit : Nat := 0x8000000000000000

/-- The number with the given sign and pattern. -/
def toFloat (negative : Bool) (pattern : Nat) : Float :=
  Float.ofBits (UInt64.ofNat (if negative then signBit + pattern else pattern))

/-- The encoding of a number without its sign. -/
def pattern (x : Float) : Nat := x.toBits.toNat % signBit

/-- Whether the sign bit of a number is set. -/
def isNegative (x : Float) : Bool := signBit ≤ x.toBits.toNat

end Surd.Binary64
