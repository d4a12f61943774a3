import Surd.Number.Encoding

/-!
# A hundredth of a number

Division by a hundred looks at the magnitude of a number and keeps its sign, and a hundredth of a
finite number is finite (`Binary64.exists_div_hundred`).
-/

namespace Surd.Binary64

open Float.Model Float.Model.UnpackedFloat

/-- An unpacked number with its sign replaced. -/
def withSign (sign : Sign) : UnpackedFloat → UnpackedFloat
  | .infinity _ => .infinity sign
  | .notANumber => .notANumber
  | .zero _ => .zero sign
  | .finite _ mantissa exponent h => .finite sign mantissa exponent h

/-- The sign of a number whose sign bit is set or not. -/
def signOf (negative : Bool) : Sign := if negative then .negative else .positive

/-! ## Signs of encodings -/

/-- In an encoding the sign stands above the exponent, and the exponent above the mantissa. -/
theorem toNat_packComponents (sign : Sign) (exponent : BitVec 11) (mantissa : BitVec 52) :
    (packComponents .binary64 sign exponent mantissa).toNat =
      sign.toBitVec.toNat * 2 ^ 63 + (exponent.toNat * 2 ^ 52 + mantissa.toNat) := by
  rw [packComponents]
  simp only [BitVec.toNat_append]
  have := mantissa.isLt
  have := exponent.isLt
  rw [← Nat.shiftLeft_add_eq_or_of_lt (by omega), ← Nat.shiftLeft_add_eq_or_of_lt (by omega)]
  simp only [Nat.shiftLeft_eq]
  omega

/-- Rounding keeps the sign and does not look at it. -/
theorem roundWithAccuracy_withSign (sign : Sign) (mantissa : Nat) (exponent : Int)
    (accuracy : Accuracy) :
    roundWithAccuracy .binary64 sign mantissa exponent accuracy =
      withSign sign (roundWithAccuracy .binary64 .positive mantissa exponent accuracy) := by
  unfold roundWithAccuracy
  dsimp only
  split <;> rfl

/-! ## Unpacking -/

/-- What an encoding is unpacked to is determined by its three parts. -/
theorem unpack_congr {bits bits' : BitVec 64}
    (hexponent : @unpackExponent .binary64 bits = @unpackExponent .binary64 bits')
    (hmantissa : @unpackMantissa .binary64 bits = @unpackMantissa .binary64 bits') :
    unpack .binary64 bits =
      withSign (Sign.ofBitVec (@unpackSign .binary64 bits)) (unpack .binary64 bits') := by
  unfold UnpackedFloat.unpack
  dsimp only
  simp only [hexponent, hmantissa]
  split
  · split <;> rfl
  · split
    · split <;> rfl
    · rfl

/-- The encoding of a number with a pattern up to infinity. -/
theorem toNat_toBitVec_toFloat {negative : Bool} {pattern : Nat} (h : pattern ≤ infinity) :
    (toFloat negative pattern).toModel.toBits.toBitVec.toNat =
      if negative then signBit + pattern else pattern :=
  toBits_toFloat h

/-- The first bit of the encoding of a number is its sign. -/
theorem unpackSign_toFloat {negative : Bool} {pattern : Nat} (h : pattern ≤ infinity) :
    Sign.ofBitVec (@unpackSign .binary64 (toFloat negative pattern).toModel.toBits.toBitVec) =
      signOf negative := by
  have hpart : (@unpackSign .binary64 (toFloat negative pattern).toModel.toBits.toBitVec).toNat =
      if negative then 1 else 0 := by
    simp only [infinity] at h
    simp only [unpackSign, BitVec.toNat_cast, BitVec.extractLsb_toNat, toNat_toBitVec_toFloat h,
      signBit, Nat.shiftRight_eq_div_pow]
    cases negative <;> simp <;> omega
  unfold Sign.ofBitVec signOf
  cases negative with
  | false => rw [if_pos (BitVec.eq_of_toNat_eq hpart), if_neg Bool.false_ne_true]
  | true =>
    rw [if_neg fun hzero => ?_, if_pos rfl]
    rw [hzero] at hpart
    cases hpart

/-- Numbers that differ in their signs only are unpacked to the same up to the signs. -/
theorem unpack_toFloat {pattern : Nat} (h : pattern ≤ infinity) (negative : Bool) :
    (toFloat negative pattern).toModel.unpack =
      withSign (signOf negative) (toFloat false pattern).toModel.unpack := by
  have hsmall : pattern < 2 ^ 63 := by
    simp only [infinity] at h
    omega
  rw [← unpackSign_toFloat h]
  refine unpack_congr (BitVec.eq_of_toNat_eq ?_) (BitVec.eq_of_toNat_eq ?_)
  · simp only [unpackExponent, BitVec.toNat_cast, BitVec.extractLsb_toNat,
      toNat_toBitVec_toFloat h, signBit, Nat.shiftRight_eq_div_pow]
    cases negative with
    | false => rfl
    | true =>
      simp
      omega
  · simp only [unpackMantissa, BitVec.toNat_cast, BitVec.extractLsb_toNat,
      toNat_toBitVec_toFloat h, signBit, Nat.shiftRight_eq_div_pow]
    cases negative with
    | false => rfl
    | true =>
      simp
      omega

/-- A finite number is a zero or has a significand and an exponent of limited size. -/
theorem unpack_finite {pattern : Nat} (h : pattern < infinity) :
    (toFloat false pattern).toModel.unpack = .zero .positive ∨
      ∃ mantissa exponent hpos, (toFloat false pattern).toModel.unpack =
        .finite .positive mantissa exponent hpos ∧ mantissa < 2 ^ 53 ∧ exponent ≤ 971 := by
  have hsign := @unpackSign_toFloat false pattern h.le
  have hbits := @toNat_toBitVec_toFloat false pattern h.le
  unfold Float.Model.unpack
  generalize (toFloat false pattern).toModel.toBits.toBitVec = bits at hsign hbits ⊢
  have hexponent : (@unpackExponent .binary64 bits).toNat < 2047 := by
    simp only [unpackExponent, BitVec.toNat_cast, BitVec.extractLsb_toNat, hbits,
      Nat.shiftRight_eq_div_pow]
    simp only [infinity] at h
    simp
    omega
  have hmantissa := (@unpackMantissa .binary64 bits).isLt
  unfold UnpackedFloat.unpack
  dsimp only
  rw [hsign]
  split
  next hfull =>
    rw [hfull] at hexponent
    exact absurd hexponent (by decide)
  next =>
    split
    next hsubnormal =>
      split
      next => exact .inl rfl
      next hnonzero =>
        have hpos : 0 < (@unpackMantissa .binary64 bits).toNat :=
          Nat.pos_of_ne_zero fun hzero => hnonzero (BitVec.eq_of_toNat_eq hzero)
        refine .inr ⟨_, _, hpos, rfl, hmantissa.trans (by decide), ?_⟩
        rw [hsubnormal]
        decide
    next =>
      have hsignificand := toNat_significand (@unpackMantissa .binary64 bits)
      have hbound : (@unpackMantissa .binary64 bits).toNat < 2 ^ 52 := hmantissa
      have hbias : (Format.binary64.exponentBias : Int) = 1023 := rfl
      refine .inr ⟨_, _, ?_, rfl, ?_, ?_⟩
      · exact hsignificand ▸ by omega
      · exact hsignificand ▸ by omega
      · rw [hbias]
        omega

/-! ## Rounding -/

/-- Shifting a significand drops its last bits. -/
theorem mantissa_shiftRight (mantissa : ExtendedMantissa) (shift : Nat) :
    (mantissa >>> shift).mantissa = mantissa.mantissa / 2 ^ shift := by
  induction shift with
  | zero => exact (Nat.div_one _).symm
  | succ shift ih =>
    change (mantissa >>> shift).mantissa / 2 = _
    rw [ih, Nat.div_div_eq_div_mul, Nat.pow_succ]

/-- Rounding adds at most one. -/
theorem roundedMantissa_le (mantissa : ExtendedMantissa) :
    mantissa.roundedMantissa ≤ mantissa.mantissa + 1 := by
  unfold ExtendedMantissa.roundedMantissa
  cases mantissa.accuracy with
  | exact => exact Nat.le_succ _
  | inexact order =>
    cases order with
    | lt => exact Nat.le_succ _
    | eq =>
      have := Nat.mod_lt mantissa.mantissa Nat.two_pos
      simp only [Accuracy.roundToNearestEven]
      omega
    | gt => exact le_rfl

/-- A mantissa is not changed when its accuracy is noted. -/
theorem mantissa_ofMantissaAndAccuracy (mantissa : Nat) (accuracy : Accuracy) :
    (ExtendedMantissa.ofMantissaAndAccuracy mantissa accuracy).mantissa = mantissa := by
  unfold ExtendedMantissa.ofMantissaAndAccuracy
  split <;> rfl

/-- A number is rounded to 53 bits, but to no finer unit than that of binary64. -/
theorem targetExponent_eq (total : Int) :
    Format.binary64.targetExponent total = max (total - 53) (-1074) := rfl

/-- The logarithm of a number is at most that of a power of two above it. -/
theorem log2_le_of_le_pow {n k : Nat} (h : n ≤ 2 ^ k) : n.log2 ≤ k := by
  by_cases hzero : n = 0
  · rw [hzero]
    exact (by decide : Nat.log2 0 = 0) ▸ Nat.zero_le k
  · have hpow := Nat.pow_succ (n := 2) (m := k)
    have hlog : n.log2 < k + 1 := (Nat.log2_lt hzero).mpr (by omega)
    omega

/-- A significand that is shifted to its target and rounded has at most one bit more than is left of
it. -/
theorem log2_rounded_le {mantissa shift : Nat} {accuracy : Accuracy} :
    (ExtendedMantissa.ofMantissaAndAccuracy mantissa accuracy >>> shift).roundedMantissa.log2 ≤
      mantissa.log2 + 1 - shift := by
  have hrounded := roundedMantissa_le
    (ExtendedMantissa.ofMantissaAndAccuracy mantissa accuracy >>> shift)
  rw [mantissa_shiftRight, mantissa_ofMantissaAndAccuracy] at hrounded
  refine log2_le_of_le_pow (hrounded.trans (Nat.succ_le_of_lt ?_))
  have hsize : mantissa < 2 ^ (mantissa.log2 + 1) := Nat.lt_log2_self
  rw [Nat.div_lt_iff_lt_mul (Nat.two_pow_pos shift), ← Nat.pow_add]
  exact hsize.trans_le (Nat.pow_le_pow_right Nat.two_pos (by omega))

/-- The exponent of a rounded number is at most one above the limit that its size before rounding
keeps to. -/
theorem exponent_roundWithAccuracy {mantissa : Nat} {exponent limit : Int} {accuracy : Accuracy}
    (hexponent : exponent ≤ limit) (hlimit : -1074 ≤ limit)
    (htotal : Float.Model.totalExponent mantissa exponent ≤ limit + 53) :
    roundWithAccuracy .binary64 .positive mantissa exponent accuracy = .zero .positive ∨
      ∃ mantissa' exponent' hpos,
        roundWithAccuracy .binary64 .positive mantissa exponent accuracy =
          .finite .positive mantissa' exponent' hpos ∧ exponent' ≤ limit + 1 := by
  unfold roundWithAccuracy
  dsimp only
  split
  · exact .inl rfl
  next hnonzero =>
    refine .inr ⟨_, _, Nat.pos_of_ne_zero hnonzero, rfl, ?_⟩
    have hrounded := @log2_rounded_le mantissa (Format.binary64.targetExponent
      (Float.Model.totalExponent mantissa exponent) - exponent).toNat accuracy
    simp only [shiftToTargetExponent, shiftToExponent]
    generalize ExtendedMantissa.roundedMantissa _ = rounded at hrounded ⊢
    simp only [targetExponent_eq, Float.Model.totalExponent] at hrounded htotal ⊢
    omega

/-! ## Dividing and packing -/

/-- One hundred, unpacked. -/
theorem unpack_hundred : (100 : Float).toModel.unpack =
    .finite .positive 7036874417766400 (-46) (by decide) := by
  rfl

/-- Dividing by a positive number keeps the sign. -/
theorem div_positive (sign : Sign) : sign / .positive = sign := by
  cases sign <;> rfl

/-- A hundredth of a finite number is rounded from a significand and an exponent of limited size. -/
theorem divCore_hundred {mantissa : Nat} {exponent : Int} (hmantissa : mantissa < 2 ^ 53)
    (hexponent : exponent ≤ 971) :
    (divCore .binary64 mantissa exponent 7036874417766400 (-46)).2.1 ≤ 966 ∧
      Float.Model.totalExponent (divCore .binary64 mantissa exponent 7036874417766400 (-46)).1
        (divCore .binary64 mantissa exponent 7036874417766400 (-46)).2.1 ≤ 966 + 53 := by
  have hlog : mantissa.log2 ≤ 52 := by
    by_cases hzero : mantissa = 0
    · rw [hzero]
      decide
    · have := (Nat.log2_lt hzero).mpr hmantissa
      omega
  have hhundred : Nat.log2 7036874417766400 = 52 := by decide
  simp only [divCore, targetExponent_eq, Float.Model.totalExponent, hhundred]
  generalize htarget : min (exponent - -46) (max ((mantissa.log2 : Int) + 1 + exponent -
    (((52 : Nat) : Int) + 1 + -46) - 53) (-1074)) = target
  have hquotient (shift : Nat) : (mantissa <<< shift / 7036874417766400).log2 ≤ shift + 1 := by
    refine log2_le_of_le_pow (Nat.div_le_of_le_mul ?_)
    have hproduct := Nat.mul_lt_mul_of_pos_right hmantissa (Nat.two_pow_pos shift)
    rw [Nat.shiftLeft_eq, Nat.pow_succ]
    omega
  have hquotient := hquotient (exponent - -46 - target).toNat
  omega

/-- An encoding consists of the sign and what is encoded without it, if rounding did not go too
far. -/
theorem exists_toNat_pack {unpacked : UnpackedFloat}
    (h : unpacked = .zero .positive ∨ ∃ mantissa exponent hpos,
      unpacked = .finite .positive mantissa exponent hpos ∧ exponent ≤ 967) :
    ∃ pattern < infinity, ∀ sign, (UnpackedFloat.pack .binary64 (withSign sign unpacked)).toNat =
      sign.toBitVec.toNat * 2 ^ 63 + pattern := by
  rcases h with rfl | ⟨mantissa, exponent, hpos, rfl, hexponent⟩
  · exact ⟨0, by decide, fun sign => toNat_packComponents sign 0 0⟩
  · have hfar : ¬ 2 ^ Format.binary64.exponentBits ≤ (exponent + Format.binary64.exponentBias +
        Format.binary64.mantissaBitsWithoutImplicit).toNat + 1 := by
      change ¬ 2048 ≤ (exponent + 1023 + 52).toNat + 1
      omega
    have hlast : (BitVec.ofNat 52 mantissa).toNat < 2 ^ 52 := (BitVec.ofNat 52 mantissa).isLt
    by_cases hnormal : mantissa.log2 + 1 = Format.binary64.mantissaBits
    · have hbiased : (BitVec.ofNat 11 (exponent + 1023 + 52).toNat).toNat ≤ 2042 := by
        rw [BitVec.toNat_ofNat]
        exact (Nat.mod_le _ _).trans (by omega)
      refine ⟨(BitVec.ofNat 11 (exponent + 1023 + 52).toNat).toNat * 2 ^ 52 +
        (BitVec.ofNat 52 mantissa).toNat, ?_, fun sign => ?_⟩
      · simp only [infinity]
        omega
      · simp only [withSign, UnpackedFloat.pack, if_neg hfar, if_pos hnormal]
        exact toNat_packComponents sign _ _
    · refine ⟨(BitVec.ofNat 52 mantissa).toNat, ?_, fun sign => ?_⟩
      · simp only [infinity]
        omega
      · simp only [withSign, UnpackedFloat.pack, if_neg hfar, if_neg hnormal]
        rw [toNat_packComponents]
        simp

/-- A hundredth of a finite number is finite. It has the same sign, and its magnitude depends on
that of the number only. -/
theorem exists_div_hundred {pattern : Nat} (h : pattern < infinity) :
    ∃ hundredth < infinity, ∀ negative,
      toFloat negative pattern / 100 = toFloat negative hundredth := by
  have hdiv : ∃ unpacked, (unpacked = .zero .positive ∨ ∃ mantissa exponent hpos,
      unpacked = .finite .positive mantissa exponent hpos ∧ exponent ≤ 967) ∧
      ∀ sign, UnpackedFloat.div .binary64 (withSign sign (toFloat false pattern).toModel.unpack)
        (100 : Float).toModel.unpack = withSign sign unpacked := by
    rcases unpack_finite h with hzero | ⟨mantissa, exponent, hpos, hfinite, hmantissa, hexponent⟩
    · refine ⟨.zero .positive, .inl rfl, fun sign => ?_⟩
      rw [hzero, unpack_hundred]
      simp only [withSign, UnpackedFloat.div, div_positive]
    · obtain ⟨hlimit, htotal⟩ := divCore_hundred hmantissa hexponent
      refine ⟨_, @exponent_roundWithAccuracy _ _ _ (divCore .binary64 mantissa exponent
        7036874417766400 (-46)).2.2 hlimit (by decide) htotal, fun sign => ?_⟩
      rw [hfinite, unpack_hundred, ← roundWithAccuracy_withSign]
      simp only [withSign, UnpackedFloat.div, div_positive]
  obtain ⟨unpacked, hunpacked, hdiv⟩ := hdiv
  obtain ⟨hundredth, hfinite, hpack⟩ := exists_toNat_pack hunpacked
  refine ⟨hundredth, hfinite, fun negative => ?_⟩
  have hbits : (toFloat negative pattern / 100).toBits.toNat =
      if negative then signBit + hundredth else hundredth := by
    have hunpack := unpack_toFloat h.le negative
    change (UnpackedFloat.pack .binary64 (UnpackedFloat.div .binary64
      (toFloat negative pattern).toModel.unpack (100 : Float).toModel.unpack)).toNat = _
    rw [hunpack, hdiv, hpack, signBit]
    cases negative with
    | false => exact Nat.zero_add _
    | true => rfl
  rw [← toFloat_pattern (toFloat negative pattern / 100), Binary64.pattern, isNegative, hbits]
  have hsmall : hundredth < signBit := by
    simp only [infinity, signBit] at hfinite ⊢
    omega
  cases negative with
  | false =>
    rw [if_neg Bool.false_ne_true, Nat.mod_eq_of_lt hsmall,
      decide_eq_false (Nat.not_le.mpr hsmall)]
  | true =>
    rw [if_pos rfl, Nat.add_mod_left, Nat.mod_eq_of_lt hsmall,
      decide_eq_true (Nat.le_add_right signBit hundredth)]

/-- A hundredth of a finite number is finite. -/
theorem pattern_div_hundred_lt {x : Float} (hfinite : pattern x < infinity) :
    pattern (x / 100) < infinity := by
  obtain ⟨hundredth, hsmall, hdiv⟩ := exists_div_hundred hfinite
  rw [← toFloat_pattern x, hdiv, pattern_toFloat hsmall.le]
  exact hsmall

end Surd.Binary64
