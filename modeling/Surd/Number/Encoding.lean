import Mathlib
import Surd.Number.Binary64

/-!
# Encodings of numbers

A number is determined by its sign and its pattern, the two parts of its encoding
(`toFloat_pattern`), and every sign and every pattern up to infinity are those of a number
(`pattern_toFloat`, `isNegative_toFloat`). The library's operations on numbers are defined on
encodings, so this is where facts about numbers come from.
-/

namespace Surd.Binary64

open Float.Model Float.Model.UnpackedFloat

/-- A sign bit is the bit of the sign that is read from it. -/
theorem toBitVec_ofBitVec (sign : BitVec 1) : (Sign.ofBitVec sign).toBitVec = sign := by
  revert sign
  decide

/-- An encoding consists of its sign, its exponent and its mantissa. -/
theorem packComponents_unpack (bits : BitVec Format.binary64.numBits) :
    packComponents .binary64 (Sign.ofBitVec (unpackSign bits)) (unpackExponent bits)
      (unpackMantissa bits) = bits := by
  rw [packComponents, toBitVec_ofBitVec]
  apply BitVec.eq_of_getLsbD_eq
  intro i hi
  simp only [unpackSign, unpackExponent, unpackMantissa, BitVec.getLsbD_append,
    BitVec.getLsbD_cast, BitVec.getLsbD_extractLsb]
  grind

/-- The significand of a normal number has a leading one that is not part of its mantissa. -/
theorem toNat_significand (mantissa : BitVec 52) :
    (1#1 ++ mantissa).toNat = 2 ^ 52 + mantissa.toNat := by
  rw [BitVec.toNat_append, ← Nat.shiftLeft_add_eq_or_of_lt mantissa.isLt]
  rfl

/-- The significand of a normal number has 53 bits. -/
theorem log2_significand (mantissa : BitVec 52) : Nat.log2 (1#1 ++ mantissa).toNat = 52 := by
  have := mantissa.isLt
  rw [toNat_significand]
  exact (Nat.log2_eq_iff (by omega)).2 (by omega)

/-- The mantissa is what is left of a significand without its leading one. -/
theorem ofNat_significand (mantissa : BitVec 52) :
    BitVec.ofNat 52 (1#1 ++ mantissa).toNat = mantissa := by
  apply BitVec.eq_of_toNat_eq
  have := mantissa.isLt
  rw [toNat_significand, BitVec.toNat_ofNat]
  omega

/-- The value of an encoding is encoded by it. -/
theorem pack_unpack {bits : BitVec Format.binary64.numBits} (hvalid : Format.binary64.Valid bits) :
    UnpackedFloat.pack .binary64 (UnpackedFloat.unpack .binary64 bits) = bits := by
  have hparts := packComponents_unpack bits
  have hbelow : (unpackExponent bits).toNat < 2 ^ 11 := (unpackExponent bits).isLt
  unfold UnpackedFloat.unpack
  dsimp only
  split
  next hfull =>
    split
    next hzero =>
      rw [hfull, hzero] at hparts
      exact hparts
    next hother => exact (hvalid.eq_packedNaN hfull hother).symm
  next hfinite =>
    have hexponent : (unpackExponent bits).toNat ≠ 2047 := by
      intro h
      apply hfinite
      apply BitVec.eq_of_toNat_eq
      rw [h]
      rfl
    split
    next hexponent₀ =>
      split
      next hmantissa₀ =>
        rw [hexponent₀, hmantissa₀] at hparts
        exact hparts
      next hmantissa =>
        have hsmall : Nat.log2 (unpackMantissa bits).toNat < 52 := by
          apply (Nat.log2_lt _).2 (unpackMantissa bits).isLt
          intro h
          exact hmantissa (BitVec.eq_of_toNat_eq h)
        rw [hexponent₀] at hparts ⊢
        unfold UnpackedFloat.pack
        dsimp only
        rw [if_neg (by decide), if_neg (by simp only [Format.mantissaBits]; omega),
          BitVec.ofNat_toNat, BitVec.setWidth_eq]
        exact hparts
    next hnormal =>
      unfold UnpackedFloat.pack
      dsimp only
      have hbiased : ((unpackExponent bits).toNat - (Format.binary64.exponentBias + (52 : Nat)) +
          Format.binary64.exponentBias + (52 : Nat) : Int).toNat = (unpackExponent bits).toNat := by
        omega
      rw [hbiased, if_neg (by omega), if_pos (by rw [log2_significand]; rfl), ofNat_significand,
        BitVec.ofNat_toNat, BitVec.setWidth_eq]
      exact hparts

/-- A number is what its encoding stands for. -/
theorem ofBits_toBits (x : Float) : Float.ofBits x.toBits = x := by
  obtain ⟨bits, hvalid⟩ := x
  have hpacked := pack_unpack hvalid
  simp only [Float.ofBits, Float.toBits, Float.Model.ofBits, Float.Model.pack, hpacked]

/-- A number is determined by its sign and its pattern. -/
theorem toFloat_pattern (x : Float) : toFloat (isNegative x) (pattern x) = x := by
  have hbelow := x.toBits.toNat_lt
  have hcode : (if isNegative x then signBit + pattern x else pattern x) = x.toBits.toNat := by
    by_cases hnegative : signBit ≤ x.toBits.toNat
    · rw [isNegative, decide_eq_true hnegative, if_pos rfl, pattern]
      simp only [signBit] at hnegative ⊢
      omega
    · rw [isNegative, decide_eq_false hnegative, if_neg Bool.false_ne_true, pattern]
      exact Nat.mod_eq_of_lt (Nat.lt_of_not_le hnegative)
  rw [toFloat, hcode, UInt64.ofNat_toNat, ofBits_toBits]

/-- A pattern up to infinity is encoded as it is. -/
theorem toBits_toFloat {negative : Bool} {pattern : Nat} (h : pattern ≤ infinity) :
    (toFloat negative pattern).toBits.toNat = if negative then signBit + pattern else pattern := by
  have hsize : (if negative then signBit + pattern else pattern) < 2 ^ 64 := by
    simp only [infinity, signBit] at h ⊢
    split <;> omega
  generalize hcode : UInt64.ofNat (if negative then signBit + pattern else pattern) = bits
  have hvalue : bits.toBitVec.toNat = if negative then signBit + pattern else pattern := by
    rw [← hcode, UInt64.toNat_toBitVec, UInt64.toNat_ofNat', Nat.mod_eq_of_lt hsize]
  have hvalid : Format.binary64.Valid bits.toBitVec := by
    refine ⟨fun hfull hother => absurd ?_ hother⟩
    have hexponent := congrArg BitVec.toNat hfull
    apply BitVec.eq_of_toNat_eq
    simp only [unpackExponent, unpackMantissa, BitVec.toNat_cast, BitVec.extractLsb_toNat,
      hvalue] at hexponent ⊢
    have hones : (-1#11).toNat = 2047 := rfl
    have hzero : (0#52).toNat = 0 := rfl
    simp only [infinity, signBit] at h hexponent ⊢
    simp only [hones, hzero, Nat.shiftRight_eq_div_pow, Nat.reduceAdd, Nat.reduceSub] at hexponent ⊢
    split at hexponent <;> simp only [*, if_true, if_false, Bool.false_eq_true] <;> omega
  simp only [toFloat, hcode, Float.ofBits, Float.toBits, Float.Model.ofBits, Float.Model.pack,
    pack_unpack hvalid]
  exact hvalue

/-- A number that is made of a sign and a pattern has that pattern. -/
theorem pattern_toFloat {negative : Bool} {pattern : Nat} (h : pattern ≤ infinity) :
    Binary64.pattern (toFloat negative pattern) = pattern := by
  rw [Binary64.pattern, toBits_toFloat h]
  simp only [infinity, signBit] at h ⊢
  split <;> omega

/-- A number that is made of a sign and a pattern has that sign. -/
theorem isNegative_toFloat {negative : Bool} {pattern : Nat} (h : pattern ≤ infinity) :
    isNegative (toFloat negative pattern) = negative := by
  rw [isNegative, toBits_toFloat h]
  simp only [infinity, signBit] at h ⊢
  cases negative with
  | false =>
    simp only [Bool.false_eq_true, if_false, decide_eq_false_iff_not]
    omega
  | true => simp

end Surd.Binary64
