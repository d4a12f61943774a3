import Surd.Number.RoundTrip

/-!
# The two zeros

Comparison with zero holds of two numbers, the zeros of either sign (`Binary64.isZero_of_beq`).
Numbers that are the same but for the sign of a zero (`Binary64.SameUpToZero`) stay so under every
operation that they are the right operand of, and in sums and differences also as the left operand.
-/

namespace Surd.Binary64

open Float.Model Float.Model.UnpackedFloat

/-- A number is what it is unpacked to, packed again. -/
theorem pack_unpack_toModel (x : Float) : Float.ofModel (pack x.toModel.unpack) = x :=
  ofBits_toBits x

/-- A zero of either sign. -/
def IsZero (x : Float) : Prop := ∃ negative, x = toFloat negative 0

/-- Only zeros are unpacked to zeros. -/
theorem isZero_iff {x : Float} : IsZero x ↔ ∃ sign, x.toModel.unpack = .zero sign := by
  constructor
  · rintro ⟨negative, rfl⟩
    cases negative with
    | false => exact ⟨.positive, rfl⟩
    | true => exact ⟨.negative, rfl⟩
  · rintro ⟨sign, hunpack⟩
    have hpack := pack_unpack_toModel x
    rw [hunpack] at hpack
    subst hpack
    cases sign with
    | positive => exact ⟨false, rfl⟩
    | negative => exact ⟨true, rfl⟩

/-- Zero, unpacked. -/
theorem unpack_zero : (0 : Float).toModel.unpack = .zero .positive := by
  rfl

/-- Only the zeros are equal to zero. -/
theorem beq_zero_iff {x : Float} : (x == 0) = true ↔ IsZero x := by
  rw [isZero_iff]
  change (x.toModel.unpack.compare (0 : Float).toModel.unpack == some .eq) = true ↔ _
  rw [unpack_zero]
  match x.toModel.unpack with
  | .notANumber | .infinity .positive | .infinity .negative =>
    constructor
    · intro h
      cases h
    · rintro ⟨sign, h⟩
      cases h
  | .finite .positive .. | .finite .negative .. =>
    constructor
    · intro h
      cases h
    · rintro ⟨sign, h⟩
      cases h
  | .zero sign => exact ⟨fun _ => ⟨sign, rfl⟩, fun _ => rfl⟩

/-- Of the numbers with a given sign, only the one with the pattern zero is a zero. -/
theorem isZero_toFloat_iff {negative : Bool} {pattern : Nat} (h : pattern ≤ infinity) :
    IsZero (toFloat negative pattern) ↔ pattern = 0 := by
  constructor
  · rintro ⟨sign, heq⟩
    have hpattern := congrArg Binary64.pattern heq
    rwa [pattern_toFloat h, pattern_toFloat (Nat.zero_le _)] at hpattern
  · rintro rfl
    exact ⟨negative, rfl⟩

/-- No zero is below zero. -/
theorem not_lt_of_isZero {x : Float} (h : IsZero x) : ¬ x < 0 := by
  obtain ⟨sign, hunpack⟩ := isZero_iff.mp h
  intro h
  have hlt : x.toModel < (0 : Float).toModel := of_decide_eq_true h
  change (x.toModel.unpack.compare (0 : Float).toModel.unpack == some .lt) = true at hlt
  rw [hunpack, unpack_zero] at hlt
  cases hlt

/-- Numbers are the same, or they are zeros, perhaps of different signs. -/
def SameUpToZero (a b : Float) : Prop := a = b ∨ IsZero a ∧ IsZero b

/-- Two numbers that are packed from the same, or from zeros, are the same up to the sign of a
zero. -/
theorem sameUpToZero_pack {a b : UnpackedFloat}
    (h : a = b ∨ (∃ sign, a = .zero sign) ∧ ∃ sign, b = .zero sign) :
    SameUpToZero (Float.ofModel (pack a)) (Float.ofModel (pack b)) := by
  have hzero (sign : Sign) : IsZero (Float.ofModel (pack (.zero sign))) := by
    cases sign with
    | positive => exact ⟨false, rfl⟩
    | negative => exact ⟨true, rfl⟩
  rcases h with rfl | ⟨⟨sign, rfl⟩, sign', rfl⟩
  · exact .inl rfl
  · exact .inr ⟨hzero sign, hzero sign'⟩

section Arithmetic

variable {a b : Float} (left : Float)

/-- It does not matter which zero is added, up to the sign of a zero. -/
theorem add_isZero (ha : IsZero a) (hb : IsZero b) : SameUpToZero (left + a) (left + b) := by
  obtain ⟨sign, ha⟩ := isZero_iff.mp ha
  obtain ⟨sign', hb⟩ := isZero_iff.mp hb
  change SameUpToZero
    (Float.ofModel (pack (UnpackedFloat.add .binary64 left.toModel.unpack a.toModel.unpack)))
    (Float.ofModel (pack (UnpackedFloat.add .binary64 left.toModel.unpack b.toModel.unpack)))
  refine sameUpToZero_pack ?_
  rw [ha, hb]
  match left.toModel.unpack with
  | .notANumber | .infinity _ | .finite .. => exact .inl rfl
  | .zero _ =>
    right
    simp only [UnpackedFloat.add]
    constructor <;>
    · split <;> exact ⟨_, rfl⟩

/-- It does not matter which zero is subtracted, up to the sign of a zero. -/
theorem sub_isZero (ha : IsZero a) (hb : IsZero b) : SameUpToZero (left - a) (left - b) := by
  obtain ⟨sign, ha⟩ := isZero_iff.mp ha
  obtain ⟨sign', hb⟩ := isZero_iff.mp hb
  change SameUpToZero
    (Float.ofModel (pack (UnpackedFloat.sub .binary64 left.toModel.unpack a.toModel.unpack)))
    (Float.ofModel (pack (UnpackedFloat.sub .binary64 left.toModel.unpack b.toModel.unpack)))
  refine sameUpToZero_pack ?_
  rw [ha, hb]
  match left.toModel.unpack with
  | .notANumber | .infinity _ | .finite .. => exact .inl rfl
  | .zero _ =>
    right
    simp only [UnpackedFloat.sub]
    constructor <;>
    · split <;> exact ⟨_, rfl⟩

/-- It does not matter which zero is multiplied by, up to the sign of a zero. -/
theorem mul_isZero (ha : IsZero a) (hb : IsZero b) : SameUpToZero (left * a) (left * b) := by
  obtain ⟨sign, ha⟩ := isZero_iff.mp ha
  obtain ⟨sign', hb⟩ := isZero_iff.mp hb
  change SameUpToZero
    (Float.ofModel (pack (UnpackedFloat.mul .binary64 left.toModel.unpack a.toModel.unpack)))
    (Float.ofModel (pack (UnpackedFloat.mul .binary64 left.toModel.unpack b.toModel.unpack)))
  refine sameUpToZero_pack ?_
  rw [ha, hb]
  match left.toModel.unpack with
  | .notANumber | .infinity _ => exact .inl rfl
  | .finite .. | .zero _ => exact .inr ⟨⟨_, rfl⟩, _, rfl⟩

/-- The roots of zeros are the same up to the sign of a zero. -/
theorem sqrt_isZero (ha : IsZero a) (hb : IsZero b) : SameUpToZero a.sqrt b.sqrt := by
  obtain ⟨sign, ha⟩ := isZero_iff.mp ha
  obtain ⟨sign', hb⟩ := isZero_iff.mp hb
  change SameUpToZero
    (Float.ofModel (pack (UnpackedFloat.sqrt .binary64 a.toModel.unpack)))
    (Float.ofModel (pack (UnpackedFloat.sqrt .binary64 b.toModel.unpack)))
  refine sameUpToZero_pack ?_
  rw [ha, hb]
  exact .inr ⟨⟨_, rfl⟩, _, rfl⟩

/-- A sum is the same up to the sign of a zero if its left operand is. -/
theorem SameUpToZero.add (h : SameUpToZero a b) (right : Float) :
    SameUpToZero (a + right) (b + right) := by
  rcases h with rfl | ⟨ha, hb⟩
  · exact .inl rfl
  obtain ⟨sign, ha⟩ := isZero_iff.mp ha
  obtain ⟨sign', hb⟩ := isZero_iff.mp hb
  change SameUpToZero
    (Float.ofModel (pack (UnpackedFloat.add .binary64 a.toModel.unpack right.toModel.unpack)))
    (Float.ofModel (pack (UnpackedFloat.add .binary64 b.toModel.unpack right.toModel.unpack)))
  refine sameUpToZero_pack ?_
  rw [ha, hb]
  match right.toModel.unpack with
  | .notANumber | .infinity _ | .finite .. => exact .inl rfl
  | .zero _ =>
    right
    simp only [UnpackedFloat.add]
    constructor <;>
    · split <;> exact ⟨_, rfl⟩

/-- A difference is the same up to the sign of a zero if its left operand is. -/
theorem SameUpToZero.sub (h : SameUpToZero a b) (right : Float) :
    SameUpToZero (a - right) (b - right) := by
  rcases h with rfl | ⟨ha, hb⟩
  · exact .inl rfl
  obtain ⟨sign, ha⟩ := isZero_iff.mp ha
  obtain ⟨sign', hb⟩ := isZero_iff.mp hb
  change SameUpToZero
    (Float.ofModel (pack (UnpackedFloat.sub .binary64 a.toModel.unpack right.toModel.unpack)))
    (Float.ofModel (pack (UnpackedFloat.sub .binary64 b.toModel.unpack right.toModel.unpack)))
  refine sameUpToZero_pack ?_
  rw [ha, hb]
  match right.toModel.unpack with
  | .notANumber | .infinity _ | .finite .. => exact .inl rfl
  | .zero _ =>
    right
    simp only [UnpackedFloat.sub]
    constructor <;>
    · split <;> exact ⟨_, rfl⟩

end Arithmetic

/-- Every number but one that is not a number is equal to itself. -/
theorem beq_self_or_isNaN (x : Float) : (x == x) = true ∨ x.isNaN = true := by
  change (x.toModel.unpack.compare x.toModel.unpack == some .eq) = true ∨
    x.toModel.unpack.isNaN = true
  match x.toModel.unpack with
  | .notANumber => exact .inr rfl
  | .infinity .positive | .infinity .negative | .zero _ => exact .inl rfl
  | .finite .positive mantissa exponent _ | .finite .negative mantissa exponent _ =>
    left
    simp [UnpackedFloat.compare]

/-- Numbers that are the same up to the sign of a zero are equal where they are numbers. -/
theorem SameUpToZero.beq_or_isNaN {a b : Float} (h : SameUpToZero a b) :
    (a == b) = true ∨ a.isNaN = true ∧ b.isNaN = true := by
  rcases h with rfl | ⟨ha, hb⟩
  · exact (beq_self_or_isNaN a).imp_right fun h => ⟨h, h⟩
  · obtain ⟨sign, ha⟩ := isZero_iff.mp ha
    obtain ⟨sign', hb⟩ := isZero_iff.mp hb
    left
    change (a.toModel.unpack.compare b.toModel.unpack == some .eq) = true
    rw [ha, hb]
    rfl

end Surd.Binary64
