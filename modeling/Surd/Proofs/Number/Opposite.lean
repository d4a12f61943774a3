import Surd.Proofs.Number.Hundredth
import Surd.Proofs.Number.Zero

/-!
# Numbers with opposite signs

Multiplication and division keep numbers opposite (`Binary64.Opposite`) when these are the left
operands, and the difference of zero and a number is the opposite number but for the sign of a zero
(`Binary64.Opposite.sameUpToZero_sub`).
-/

namespace Surd.Binary64

open Float.Model Float.Model.UnpackedFloat

/-- A number is the other one with its sign turned, or neither is a number. -/
def Opposite (a b : Float) : Prop := a.toModel.unpack = b.toModel.unpack.neg

/-- Negation turns the sign over. -/
theorem neg_withSign (sign : Sign) (unpacked : UnpackedFloat) :
    (withSign sign unpacked).neg = withSign (-sign) unpacked := by
  cases unpacked <;> rfl

/-- An encoding is unpacked to a number with the sign that it was packed with. -/
theorem unpack_packComponents (sign sign' : Sign) (exponent : BitVec 11) (mantissa : BitVec 52) :
    unpack .binary64 (packComponents .binary64 sign exponent mantissa) =
      withSign sign (unpack .binary64 (packComponents .binary64 sign' exponent mantissa)) := by
  have hsign : Sign.ofBitVec (@unpackSign .binary64
      (packComponents .binary64 sign exponent mantissa)) = sign := by
    have hbits : @unpackSign .binary64 (packComponents .binary64 sign exponent mantissa) =
        sign.toBitVec := by
      apply BitVec.eq_of_toNat_eq
      have hexponent := exponent.isLt
      have hmantissa := mantissa.isLt
      have hlimit := sign.toBitVec.isLt
      simp only [unpackSign, BitVec.toNat_cast, BitVec.extractLsb_toNat, toNat_packComponents,
        Nat.shiftRight_eq_div_pow]
      change (_ / 2 ^ 63) % 2 ^ 1 = _
      omega
    rw [hbits]
    cases sign <;> rfl
  have hcongr := @unpack_congr (packComponents .binary64 sign exponent mantissa)
    (packComponents .binary64 sign' exponent mantissa)
    (by rw [unpackExponent_packComponents, unpackExponent_packComponents])
    (by rw [unpackMantissa_packComponents, unpackMantissa_packComponents])
  rwa [hsign] at hcongr

/-- Encodings that differ in the sign only are unpacked to opposite numbers. -/
theorem unpack_packComponents_neg (sign : Sign) (exponent : BitVec 11) (mantissa : BitVec 52) :
    unpack .binary64 (packComponents .binary64 (-sign) exponent mantissa) =
      (unpack .binary64 (packComponents .binary64 sign exponent mantissa)).neg := by
  rw [unpack_packComponents (-sign) sign, unpack_packComponents sign sign, neg_withSign,
    ← unpack_packComponents sign sign]

/-- What is packed with its sign turned is unpacked to the opposite number. -/
theorem unpack_pack_neg (unpacked : UnpackedFloat) :
    unpack .binary64 (UnpackedFloat.pack .binary64 unpacked.neg) =
      (unpack .binary64 (UnpackedFloat.pack .binary64 unpacked)).neg := by
  match unpacked with
  | .notANumber => rfl
  | .infinity sign => exact unpack_packComponents_neg sign _ _
  | .zero sign => exact unpack_packComponents_neg sign _ _
  | .finite sign mantissa exponent h =>
    simp only [UnpackedFloat.neg, UnpackedFloat.pack]
    split
    · exact unpack_packComponents_neg sign _ _
    · split <;> exact unpack_packComponents_neg sign _ _

/-- The sign of a product turns over with that of its left factor. -/
theorem mul_neg (sign sign' : Sign) : -sign * sign' = -(sign * sign') := by
  cases sign <;> cases sign' <;> rfl

/-- The sign of a quotient turns over with that of its dividend. -/
theorem div_neg (sign sign' : Sign) : -sign / sign' = -(sign / sign') := by
  cases sign <;> cases sign' <;> rfl

/-- Rounding does not depend on the sign. -/
theorem roundWithAccuracy_neg (sign : Sign) (mantissa : Nat) (exponent : Int)
    (accuracy : Accuracy) : roundWithAccuracy .binary64 (-sign) mantissa exponent accuracy =
      (roundWithAccuracy .binary64 sign mantissa exponent accuracy).neg := by
  rw [roundWithAccuracy_withSign, roundWithAccuracy_withSign sign, neg_withSign]

namespace Opposite

variable {a b : Float}

/-- Products of opposite numbers with the same factor are opposite. -/
theorem mul (h : Opposite a b) (right : Float) : Opposite (a * right) (b * right) := by
  change unpack .binary64 (UnpackedFloat.pack .binary64
      (UnpackedFloat.mul .binary64 a.toModel.unpack right.toModel.unpack)) =
    (unpack .binary64 (UnpackedFloat.pack .binary64
      (UnpackedFloat.mul .binary64 b.toModel.unpack right.toModel.unpack))).neg
  rw [← unpack_pack_neg, h]
  congr 2
  cases b.toModel.unpack <;> cases right.toModel.unpack <;>
    simp only [UnpackedFloat.neg, UnpackedFloat.mul, mul_neg, roundWithAccuracy_neg]

/-- Quotients of opposite numbers by the same divisor are opposite. -/
theorem div (h : Opposite a b) (right : Float) : Opposite (a / right) (b / right) := by
  change unpack .binary64 (UnpackedFloat.pack .binary64
      (UnpackedFloat.div .binary64 a.toModel.unpack right.toModel.unpack)) =
    (unpack .binary64 (UnpackedFloat.pack .binary64
      (UnpackedFloat.div .binary64 b.toModel.unpack right.toModel.unpack))).neg
  rw [← unpack_pack_neg, h]
  congr 2
  cases b.toModel.unpack <;> cases right.toModel.unpack <;>
    simp only [UnpackedFloat.neg, UnpackedFloat.div, div_neg, roundWithAccuracy_neg]

/-- The difference of zero and a number is the opposite one, but for the sign of a zero. -/
theorem sameUpToZero_sub (h : Opposite a b) : SameUpToZero a (toFloat false 0 - b) := by
  have hzero : (toFloat false 0).toModel.unpack = .zero .positive := rfl
  have ha := pack_unpack_toModel a
  rw [h] at ha
  rw [← ha]
  change SameUpToZero _ (Float.ofModel (pack (UnpackedFloat.sub .binary64
    (toFloat false 0).toModel.unpack b.toModel.unpack)))
  refine sameUpToZero_pack ?_
  rw [hzero]
  match b.toModel.unpack with
  | .notANumber | .infinity _ | .finite .. => exact .inl rfl
  | .zero sign =>
    right
    simp only [UnpackedFloat.sub]
    exact ⟨⟨_, rfl⟩, by split <;> exact ⟨_, rfl⟩⟩

end Opposite

/-- A magnitude with a minus sign is opposite to the same one without. -/
theorem opposite_toFloat {pattern : Nat} (h : pattern ≤ infinity) :
    Opposite (toFloat true pattern) (toFloat false pattern) :=
  calc (toFloat true pattern).toModel.unpack
      = withSign .negative (toFloat false pattern).toModel.unpack := unpack_toFloat h true
    _ = (withSign .positive (toFloat false pattern).toModel.unpack).neg :=
      (neg_withSign .positive _).symm
    _ = (toFloat false pattern).toModel.unpack.neg := congrArg _ (unpack_toFloat h false).symm

end Surd.Binary64
