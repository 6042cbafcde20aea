import Mathlib

/-!
Contract: the numbers that a binary format stores, and the rounding of numbers
to them.

Owns:
- the pairs of a mantissa and an exponent that a format stores;
- the proof that such a pair is kept by packing, and that unpacking yields one;
- rounding a number that is stored as another pair, which finds that pair;
- rounding any other number of full precision, which does not cross a power of
  two downward.

Does not own: the arithmetic operations, or a particular format.
-/

namespace Resampler

open Float.Model Float.Model.UnpackedFloat

/-- A mantissa and an exponent as a format stores them: the exponent is the one
that rounding to the format aims at, and does not stand for infinity. -/
structure Stored (format : Format) (mantissa : Nat) (exponent : Int) : Prop where
  positive : 0 < mantissa
  aimed : format.targetExponent (totalExponent mantissa exponent) = exponent
  bounded : exponent + format.exponentBias + format.mantissaBitsWithoutImplicit + 1 <
    2 ^ format.exponentBits

section Format

variable (format : Format)

theorem minExponent_eq :
    format.minExponent = 1 - (format.exponentBias + format.mantissaBitsWithoutImplicit : Int) := by
  have some : 1 ≤ 2 ^ (format.exponentBits - 1) := Nat.one_le_two_pow
  simp only [Format.minExponent, Format.exponentBias, Format.mantissaBits]
  push_cast [some]
  ring

end Format

variable {format : Format} {mantissa : Nat} {exponent : Int}

theorem targetExponent_eq :
    format.targetExponent (totalExponent mantissa exponent) =
      max (mantissa.log2 + exponent - format.mantissaBitsWithoutImplicit) format.minExponent := by
  simp only [Format.targetExponent, totalExponent, Format.mantissaBits]
  congr 1
  push_cast
  ring

/-- A stored mantissa has all its bits, or the exponent is the least. -/
theorem Stored.full_or_least (stored : Stored format mantissa exponent) :
    mantissa.log2 = format.mantissaBitsWithoutImplicit ∧ format.minExponent ≤ exponent ∨
      mantissa.log2 < format.mantissaBitsWithoutImplicit ∧ exponent = format.minExponent := by
  have aimed := stored.aimed
  rw [targetExponent_eq] at aimed
  omega

theorem Stored.minExponent_le (stored : Stored format mantissa exponent) :
    format.minExponent ≤ exponent := by
  rcases stored.full_or_least with ⟨_, above⟩ | ⟨_, least⟩
  · exact above
  · exact Int.le_of_eq least.symm

theorem Stored.lt_two_pow (stored : Stored format mantissa exponent) :
    mantissa < 2 ^ format.mantissaBits := by
  have short : mantissa.log2 < format.mantissaBits := by
    rw [Format.mantissaBits]
    rcases stored.full_or_least with ⟨full, _⟩ | ⟨short, _⟩ <;> omega
  exact (Nat.log2_lt stored.positive.ne').1 short

/-! ## Packing -/

private theorem toNat_append_implicit {width : Nat} (rest : BitVec width) :
    (1#1 ++ rest).toNat = 2 ^ width + rest.toNat := by
  rw [BitVec.toNat_append, ← Nat.shiftLeft_add_eq_or_of_lt rest.isLt]
  simp [Nat.shiftLeft_eq]

private theorem toNat_ones :
    (-BitVec.ofNat format.exponentBits 1).toNat = 2 ^ format.exponentBits - 1 := by
  rw [BitVec.neg_one_eq_allOnes, BitVec.toNat_allOnes]

section Fields

variable {biased : Nat} {sign : Sign} {positive : 0 < mantissa}

/-- With all its bits, a mantissa is packed without the highest one. -/
private theorem unpack_pack_of_full (full : mantissa.log2 = format.mantissaBitsWithoutImplicit)
    (biased_eq : (biased : Int) =
      exponent + format.exponentBias + format.mantissaBitsWithoutImplicit)
    (some : biased ≠ 0) (below : biased + 1 < 2 ^ format.exponentBits) :
    UnpackedFloat.unpack format
        (UnpackedFloat.pack format (.finite sign mantissa exponent positive)) =
      .finite sign mantissa exponent positive := by
  have field : (BitVec.ofNat format.exponentBits biased).toNat = biased := by
    rw [BitVec.toNat_ofNat, Nat.mod_eq_of_lt (by omega)]
  have notOnes : BitVec.ofNat format.exponentBits biased ≠ -BitVec.ofNat format.exponentBits 1 := by
    rw [BitVec.toNat_ne, field, toNat_ones]
    omega
  have notZero : BitVec.ofNat format.exponentBits biased ≠ BitVec.ofNat format.exponentBits 0 := by
    rwa [BitVec.toNat_ne, field, BitVec.toNat_ofNat, Nat.zero_mod]
  have bounds := (Nat.log2_eq_iff positive.ne').1 full
  have whole : (1#1 ++ BitVec.ofNat format.mantissaBitsWithoutImplicit mantissa).toNat =
      mantissa := by
    rw [Nat.pow_succ] at bounds
    rw [toNat_append_implicit, BitVec.toNat_ofNat, Nat.mod_eq_sub_mod bounds.1,
      Nat.mod_eq_of_lt (by omega)]
    omega
  rw [UnpackedFloat.pack]
  simp only [← biased_eq, Int.toNat_natCast, if_neg (Nat.not_le.2 below)]
  rw [if_pos (by rw [full, Format.mantissaBits, Nat.add_comm]), UnpackedFloat.unpack]
  simp only [unpackMantissa_packComponents, unpackExponent_packComponents,
    unpackSign_packComponents, Sign.ofBitVec_toBitVec, if_neg notOnes, if_neg notZero, whole,
    field]
  congr 1
  omega

/-- With fewer bits, a mantissa is packed as it is, and the exponent as zero. -/
private theorem unpack_pack_of_short (short : mantissa.log2 < format.mantissaBitsWithoutImplicit)
    (biased_eq : (biased : Int) =
      exponent + format.exponentBias + format.mantissaBitsWithoutImplicit)
    (one : biased = 1) (below : biased + 1 < 2 ^ format.exponentBits) :
    UnpackedFloat.unpack format
        (UnpackedFloat.pack format (.finite sign mantissa exponent positive)) =
      .finite sign mantissa exponent positive := by
  have whole : (BitVec.ofNat format.mantissaBitsWithoutImplicit mantissa).toNat = mantissa := by
    rw [BitVec.toNat_ofNat, Nat.mod_eq_of_lt ((Nat.log2_lt positive.ne').1 short)]
  have notZero : BitVec.ofNat format.mantissaBitsWithoutImplicit mantissa ≠
      BitVec.ofNat format.mantissaBitsWithoutImplicit 0 := by
    rw [BitVec.toNat_ne, whole, BitVec.toNat_ofNat, Nat.zero_mod]
    exact positive.ne'
  have zeroNotOnes : BitVec.ofNat format.exponentBits 0 ≠ -BitVec.ofNat format.exponentBits 1 := by
    rw [BitVec.toNat_ne, toNat_ones, BitVec.toNat_ofNat, Nat.zero_mod]
    omega
  rw [UnpackedFloat.pack]
  simp only [← biased_eq, Int.toNat_natCast, if_neg (Nat.not_le.2 below)]
  rw [if_neg (by rw [Format.mantissaBits]; omega), UnpackedFloat.unpack]
  simp only [unpackMantissa_packComponents, unpackExponent_packComponents,
    unpackSign_packComponents, Sign.ofBitVec_toBitVec, if_neg zeroNotOnes, if_true,
    dif_neg notZero, whole]
  congr 1
  rw [BitVec.toNat_ofNat, Nat.zero_mod]
  omega

end Fields

theorem unpack_pack (stored : Stored format mantissa exponent) (sign : Sign)
    (positive : 0 < mantissa) :
    UnpackedFloat.unpack format
        (UnpackedFloat.pack format (.finite sign mantissa exponent positive)) =
      .finite sign mantissa exponent positive := by
  have least := minExponent_eq format
  have above := stored.minExponent_le
  have bounded := stored.bounded
  obtain ⟨biased, biased_eq⟩ : ∃ biased : Nat,
      (biased : Int) = exponent + format.exponentBias + format.mantissaBitsWithoutImplicit :=
    ⟨_, Int.toNat_of_nonneg (by omega)⟩
  have below : biased + 1 < 2 ^ format.exponentBits := by
    zify
    omega
  rcases stored.full_or_least with ⟨full, _⟩ | ⟨short, least_eq⟩
  · exact unpack_pack_of_full full biased_eq (by omega) below
  · exact unpack_pack_of_short short biased_eq (by omega) below

theorem stored_of_full (full : mantissa.log2 = format.mantissaBitsWithoutImplicit)
    (above : format.minExponent ≤ exponent)
    (bounded : exponent + format.exponentBias + format.mantissaBitsWithoutImplicit + 1 <
      2 ^ format.exponentBits) : Stored format mantissa exponent := by
  refine ⟨?_, ?_, bounded⟩
  · by_contra none
    obtain rfl : mantissa = 0 := by omega
    have := format.hm
    simp at full
    omega
  · rw [targetExponent_eq, full]
    omega

theorem stored_of_least (wide : 2 ≤ format.exponentBits) (positive : 0 < mantissa)
    (short : mantissa.log2 < format.mantissaBitsWithoutImplicit) :
    Stored format mantissa format.minExponent := by
  have least := minExponent_eq format
  have range : 2 ^ 2 ≤ 2 ^ format.exponentBits := Nat.pow_le_pow_right (by decide) wide
  refine ⟨positive, ?_, ?_⟩
  · rw [targetExponent_eq]
    omega
  · zify at range
    omega

private theorem toNat_ne_zero {width : Nat} {bits : BitVec width}
    (notZero : bits ≠ BitVec.ofNat width 0) : bits.toNat ≠ 0 := by
  rwa [BitVec.toNat_ne, BitVec.toNat_ofNat, Nat.zero_mod] at notZero

/-- What is unpacked is stored. -/
theorem stored_of_unpack (wide : 2 ≤ format.exponentBits) {bits : BitVec format.numBits}
    {sign : Sign} {positive : 0 < mantissa}
    (unpacked : UnpackedFloat.unpack format bits = .finite sign mantissa exponent positive) :
    Stored format mantissa exponent := by
  have least := minExponent_eq format
  have field := (unpackExponent bits).isLt
  have rest := (unpackMantissa bits).isLt
  rw [UnpackedFloat.unpack] at unpacked
  split at unpacked
  · split at unpacked <;> cases unpacked
  · rename_i notOnes
    have below : (unpackExponent bits).toNat + 1 < 2 ^ format.exponentBits := by
      have differ := BitVec.toNat_ne.1 notOnes
      rw [toNat_ones] at differ
      omega
    split at unpacked
    · rename_i isZero
      split at unpacked
      · cases unpacked
      · rename_i notZero
        have some := toNat_ne_zero notZero
        cases unpacked
        have aimed : ((unpackExponent bits).toNat : Int) -
            (format.exponentBias + format.mantissaBitsWithoutImplicit) + 1 =
              format.minExponent := by
          rw [isZero, BitVec.toNat_ofNat, Nat.zero_mod]
          omega
        rw [aimed]
        exact stored_of_least wide (Nat.pos_of_ne_zero some) ((Nat.log2_lt some).2 rest)
    · rename_i notZero
      have some := toNat_ne_zero notZero
      cases unpacked
      apply stored_of_full
      · rw [toNat_append_implicit]
        apply (Nat.log2_eq_iff (by omega)).2
        rw [Nat.pow_succ]
        omega
      · omega
      · zify at below
        omega

/-! ## Magnitudes -/

def magnitude (mantissa : Nat) (exponent : Int) : ℚ := mantissa * 2 ^ exponent

theorem magnitude_mul_two_pow (mantissa shift : Nat) (exponent : Int) :
    magnitude (mantissa * 2 ^ shift) exponent = magnitude mantissa (exponent + shift) := by
  rw [magnitude, magnitude, zpow_add₀ (by norm_num), zpow_natCast]
  push_cast
  ring

theorem magnitude_two_pow (power : Nat) (exponent : Int) :
    magnitude (2 ^ power) exponent = 2 ^ (power + exponent) := by
  rw [magnitude, zpow_add₀ (by norm_num), zpow_natCast]
  push_cast
  rfl

theorem magnitude_natCast (mantissa power : Nat) :
    magnitude mantissa power = (mantissa * 2 ^ power : Nat) := by
  rw [magnitude, zpow_natCast]
  push_cast
  rfl

theorem magnitude_mono {less : Nat} (ordered : less ≤ mantissa) (exponent : Int) :
    magnitude less exponent ≤ magnitude mantissa exponent := by
  unfold magnitude
  gcongr

/-- Of two pairs for one number, that with the lesser exponent has as many zeros more. -/
theorem eq_mul_two_pow_of_magnitude {other : Nat} {greater : Int}
    (same : magnitude mantissa exponent = magnitude other greater) (ordered : exponent ≤ greater) :
    mantissa = other * 2 ^ (greater - exponent).toNat := by
  have distance : greater = exponent + (greater - exponent).toNat := by omega
  rw [distance, ← magnitude_mul_two_pow] at same
  have scale : (2 : ℚ) ^ exponent ≠ 0 := zpow_ne_zero _ (by norm_num)
  have distance : exponent + (greater - exponent).toNat - exponent =
      (greater - exponent).toNat := by omega
  exact_mod_cast mul_right_cancel₀ scale same

theorem log2_mul_two_pow (positive : 0 < mantissa) (shift : Nat) :
    (mantissa * 2 ^ shift).log2 = mantissa.log2 + shift := by
  have scaled : mantissa * 2 ^ shift ≠ 0 := Nat.mul_ne_zero positive.ne' (by positivity)
  apply (Nat.log2_eq_iff scaled).2
  have below : mantissa < 2 ^ (mantissa.log2 + 1) := Nat.lt_log2_self
  rw [Nat.add_right_comm, Nat.pow_add, Nat.pow_add]
  exact ⟨Nat.mul_le_mul_right _ (Nat.log2_self_le positive.ne'),
    Nat.mul_lt_mul_of_pos_right below (by positivity)⟩

/-- The exponent that is aimed at depends on the number alone. -/
theorem totalExponent_mul_two_pow (positive : 0 < mantissa) (shift : Nat) (exponent : Int) :
    totalExponent (mantissa * 2 ^ shift) exponent = totalExponent mantissa (exponent + shift) := by
  rw [totalExponent, totalExponent, log2_mul_two_pow positive]
  push_cast
  ring

/-- So it is the same for two pairs of one number. -/
theorem totalExponent_congr {other : Nat} {power : Int} (positive : 0 < mantissa)
    (same : magnitude mantissa exponent = magnitude other power) :
    totalExponent other power = totalExponent mantissa exponent := by
  rcases Int.le_total power exponent with ordered | ordered
  · have distance : power + (exponent - power).toNat = exponent := by omega
    rw [eq_mul_two_pow_of_magnitude same.symm ordered, totalExponent_mul_two_pow positive, distance]
  · have scaled := eq_mul_two_pow_of_magnitude same ordered
    have otherPositive : 0 < other := by
      rw [scaled] at positive
      exact Nat.pos_of_mul_pos_right positive
    have distance : exponent + (power - exponent).toNat = power := by omega
    rw [scaled, totalExponent_mul_two_pow otherPositive, distance]

/-- A number of few enough bits in the range of a format is stored as some pair. -/
theorem exists_stored (positive : 0 < mantissa) (fits : mantissa < 2 ^ format.mantissaBits)
    (above : format.minExponent ≤ exponent)
    (bounded : exponent + format.exponentBias + format.mantissaBitsWithoutImplicit + 1 <
      2 ^ format.exponentBits) :
    ∃ kept lower, Stored format kept lower ∧ magnitude kept lower = magnitude mantissa exponent := by
  have short : mantissa.log2 < format.mantissaBits := (Nat.log2_lt positive.ne').2 fits
  rw [Format.mantissaBits] at short
  have aim := @targetExponent_eq format mantissa exponent
  obtain ⟨shift, distance⟩ : ∃ shift : Nat,
      exponent = format.targetExponent (totalExponent mantissa exponent) + shift :=
    ⟨(exponent - format.targetExponent (totalExponent mantissa exponent)).toNat, by omega⟩
  refine ⟨mantissa * 2 ^ shift, format.targetExponent (totalExponent mantissa exponent),
    ⟨by positivity, ?_, by omega⟩, ?_⟩
  · rw [totalExponent_mul_two_pow positive, ← distance]
  · rw [magnitude_mul_two_pow, ← distance]

/-! ## Rounding -/

private theorem mantissa_shiftRight (extended : ExtendedMantissa) (shift : Nat) :
    (extended >>> shift).mantissa = extended.mantissa / 2 ^ shift := by
  induction shift with
  | zero => simp [HShiftRight.hShiftRight, Nat.repeat]
  | succ shift inductionHypothesis =>
      show (extended >>> shift).shiftRightOne.mantissa = _
      rw [ExtendedMantissa.shiftRightOne, inductionHypothesis, Nat.div_div_eq_div_mul, Nat.pow_succ]

/-- Zeros are shifted out without a trace. -/
private theorem shiftRight_mul_two_pow (mantissa shift : Nat) :
    (⟨mantissa * 2 ^ shift, false, false⟩ : ExtendedMantissa) >>> shift =
      ⟨mantissa, false, false⟩ := by
  induction shift generalizing mantissa with
  | zero => simp [HShiftRight.hShiftRight, Nat.repeat]
  | succ shift inductionHypothesis =>
      show ((⟨mantissa * 2 ^ (shift + 1), false, false⟩ : ExtendedMantissa) >>> shift).shiftRightOne =
        _
      rw [Nat.pow_succ, ← Nat.mul_assoc, Nat.mul_right_comm, inductionHypothesis]
      simp [ExtendedMantissa.shiftRightOne]

private theorem roundedMantissa_bounds (extended : ExtendedMantissa) :
    extended.mantissa ≤ extended.roundedMantissa ∧
      extended.roundedMantissa ≤ extended.mantissa + 1 := by
  obtain ⟨mantissa, roundBit, stickyBit⟩ := extended
  cases roundBit <;> cases stickyBit <;>
    simp only [ExtendedMantissa.roundedMantissa, ExtendedMantissa.accuracy,
      Accuracy.roundToNearestEven] <;> omega

variable {other : Nat} {power : Int}

/-- Rounding aims at the exponent with which a number is stored, whichever pair it is given. -/
private theorem targetExponent_of_stored (stored : Stored format mantissa exponent)
    (same : magnitude other power = magnitude mantissa exponent) :
    format.targetExponent (totalExponent other power) = exponent := by
  rw [totalExponent_congr stored.positive same.symm, stored.aimed]

/-- A number is stored as one pair only. -/
theorem Stored.unique (stored : Stored format mantissa exponent) (another : Stored format other power)
    (same : magnitude other power = magnitude mantissa exponent) :
    other = mantissa ∧ power = exponent := by
  obtain rfl : power = exponent :=
    another.aimed.symm.trans (targetExponent_of_stored stored same)
  have count := eq_mul_two_pow_of_magnitude same (Int.le_refl _)
  rw [Int.sub_self, Int.toNat_zero, Nat.pow_zero, Nat.mul_one] at count
  exact ⟨count, rfl⟩

/-- A mantissa with all its bits has none to fill in. -/
theorem Stored.le_of_full (stored : Stored format mantissa exponent)
    (same : magnitude other power = magnitude mantissa exponent)
    (full : format.mantissaBitsWithoutImplicit ≤ other.log2) : power ≤ exponent := by
  rw [← targetExponent_of_stored stored same, targetExponent_eq]
  omega

private theorem shiftToTargetExponent_of_stored (stored : Stored format mantissa exponent)
    (same : magnitude other power = magnitude mantissa exponent) (ordered : power ≤ exponent) :
    shiftToTargetExponent format other power .exact = (⟨mantissa, false, false⟩, exponent) := by
  have distance : power + (exponent - power).toNat = exponent := by omega
  rw [shiftToTargetExponent, targetExponent_of_stored stored same, shiftToExponent]
  simp only [ExtendedMantissa.ofMantissaAndAccuracy, distance]
  conv_lhs => rw [eq_mul_two_pow_of_magnitude same ordered, shiftRight_mul_two_pow]

/-- A number that is stored is rounded to itself, and zeros beyond its bits are dropped. -/
theorem roundWithAccuracy_of_stored (stored : Stored format mantissa exponent)
    (same : magnitude other power = magnitude mantissa exponent) (ordered : power ≤ exponent)
    (sign : Sign) :
    roundWithAccuracy format sign other power .exact =
      .finite sign mantissa exponent stored.positive := by
  rw [roundWithAccuracy, shiftToTargetExponent_of_stored stored same ordered]
  simp only [ExtendedMantissa.roundedMantissa, ExtendedMantissa.accuracy,
    Accuracy.roundToNearestEven, shiftToTargetExponent_of_stored stored rfl (Int.le_refl _),
    dif_neg stored.positive.ne']

/-- Here zeros that it lacks are filled in first. -/
theorem round_of_stored (stored : Stored format mantissa exponent)
    (same : magnitude other power = magnitude mantissa exponent) (sign : Sign) :
    round format sign other power = .finite sign mantissa exponent stored.positive := by
  have shifted : magnitude (other <<< (power - exponent).toNat)
      (power - (power - exponent).toNat) = magnitude mantissa exponent := by
    rw [Nat.shiftLeft_eq, magnitude_mul_two_pow, Int.sub_add_cancel, same]
  rw [UnpackedFloat.round, targetExponent_of_stored stored same, decreaseExponent]
  exact roundWithAccuracy_of_stored stored shifted (by omega) sign

/-- A mantissa loses its lowest bits, and the highest one stays the highest. -/
private theorem shifted_bounds {bits shift : Nat} (positive : mantissa ≠ 0)
    (long : mantissa.log2 = bits + shift) :
    2 ^ bits ≤ mantissa / 2 ^ shift ∧ mantissa / 2 ^ shift < 2 ^ (bits + 1) := by
  constructor
  · rw [Nat.le_div_iff_mul_le (by positivity), ← Nat.pow_add, ← long]
    exact Nat.log2_self_le positive
  · rw [Nat.div_lt_iff_lt_mul (by positivity), ← Nat.pow_add, Nat.add_right_comm, ← long]
    exact Nat.lt_log2_self

/-- A mantissa with all its bits is stored as it is, and one that was rounded up to a bit more with
the next exponent. -/
private theorem exists_stored_of_rounded
    (least : 2 ^ format.mantissaBitsWithoutImplicit ≤ mantissa)
    (most : mantissa ≤ 2 ^ (format.mantissaBitsWithoutImplicit + 1))
    (above : format.minExponent ≤ exponent)
    (bounded : exponent + format.exponentBias + format.mantissaBitsWithoutImplicit + 2 <
      2 ^ format.exponentBits) :
    ∃ kept power, Stored format kept power ∧
      magnitude mantissa exponent = magnitude kept power ∧ exponent ≤ power := by
  by_cases carried : mantissa = 2 ^ (format.mantissaBitsWithoutImplicit + 1)
  · refine ⟨2 ^ format.mantissaBitsWithoutImplicit, exponent + 1,
      stored_of_full Nat.log2_two_pow (by omega) (by omega), ?_, by omega⟩
    rw [carried, magnitude_two_pow, magnitude_two_pow]
    congr 1
    push_cast
    ring
  · have full : mantissa.log2 = format.mantissaBitsWithoutImplicit :=
      (Nat.log2_eq_iff (by omega)).2 ⟨least, by omega⟩
    exact ⟨mantissa, exponent, stored_of_full full above (by omega), rfl, Int.le_refl _⟩

/-- A number with more bits than a format has is rounded to one that is stored, and not across
a power of two downward, nor beyond the next one upward. -/
theorem exists_roundWithAccuracy
    (long : format.mantissaBitsWithoutImplicit ≤ mantissa.log2)
    (above : format.minExponent + format.mantissaBitsWithoutImplicit ≤ mantissa.log2 + exponent)
    (bounded : mantissa.log2 + exponent + format.exponentBias + 2 < 2 ^ format.exponentBits)
    (sign : Sign) :
    ∃ kept power, ∃ stored : Stored format kept power,
      roundWithAccuracy format sign mantissa exponent .exact =
        .finite sign kept power stored.positive ∧
      2 ^ (mantissa.log2 + exponent) ≤ magnitude kept power ∧
      magnitude kept power ≤ 2 ^ (mantissa.log2 + exponent + 1) := by
  obtain ⟨shift, long⟩ := Nat.exists_eq_add_of_le long
  have positive : mantissa ≠ 0 := by
    rintro rfl
    have := format.hm
    simp at long
    omega
  have aim : format.targetExponent (totalExponent mantissa exponent) = exponent + shift := by
    rw [targetExponent_eq]
    omega
  have first : shiftToTargetExponent format mantissa exponent .exact =
      ((⟨mantissa, false, false⟩ : ExtendedMantissa) >>> shift, exponent + shift) := by
    have distance : (exponent + shift - exponent).toNat = shift := by omega
    rw [shiftToTargetExponent, aim, shiftToExponent, distance]
    rfl
  -- The mantissa that is left after the shift has just the bits of the format.
  have bits := shifted_bounds positive long
  have near := roundedMantissa_bounds ((⟨mantissa, false, false⟩ : ExtendedMantissa) >>> shift)
  simp only [mantissa_shiftRight] at near
  generalize rounds : ((⟨mantissa, false, false⟩ : ExtendedMantissa) >>> shift).roundedMantissa =
    rounded at near
  have least : 2 ^ format.mantissaBitsWithoutImplicit ≤ rounded := by omega
  have most : rounded ≤ 2 ^ (format.mantissaBitsWithoutImplicit + 1) := by omega
  obtain ⟨kept, power, stored, same, ordered⟩ :=
    @exists_stored_of_rounded format rounded (exponent + shift) least most (by omega) (by omega)
  have top : (mantissa.log2 + exponent : Int) =
      format.mantissaBitsWithoutImplicit + (exponent + shift) := by omega
  refine ⟨kept, power, stored, ?_, ?_, ?_⟩
  · rw [roundWithAccuracy, first]
    simp only [rounds, shiftToTargetExponent_of_stored stored same ordered,
      dif_neg stored.positive.ne']
  · rw [← same, top, ← magnitude_two_pow]
    exact magnitude_mono least _
  · have next : (mantissa.log2 + exponent + 1 : Int) =
        (format.mantissaBitsWithoutImplicit + 1 : Nat) + (exponent + shift) := by omega
    rw [← same, next, ← magnitude_two_pow]
    exact magnitude_mono most _

/-- The same from as few bits as there are, when zeros are filled in first. -/
theorem exists_round (positive : 0 < mantissa)
    (above : format.minExponent + format.mantissaBitsWithoutImplicit ≤ mantissa.log2 + exponent)
    (bounded : mantissa.log2 + exponent + format.exponentBias + 2 < 2 ^ format.exponentBits)
    (sign : Sign) :
    ∃ kept power, ∃ stored : Stored format kept power,
      UnpackedFloat.round format sign mantissa exponent =
        .finite sign kept power stored.positive ∧
      2 ^ (mantissa.log2 + exponent) ≤ magnitude kept power ∧
      magnitude kept power ≤ 2 ^ (mantissa.log2 + exponent + 1) := by
  obtain ⟨filled, count⟩ : ∃ filled, filled =
      (exponent - format.targetExponent (totalExponent mantissa exponent)).toNat := ⟨_, rfl⟩
  have log2 := log2_mul_two_pow positive filled
  have top : ((mantissa * 2 ^ filled).log2 + (exponent - filled) : Int) =
      mantissa.log2 + exponent := by
    rw [log2]
    push_cast
    ring
  have long : format.mantissaBitsWithoutImplicit ≤ (mantissa * 2 ^ filled).log2 := by
    rw [targetExponent_eq] at count
    rw [log2]
    omega
  have rounded := @exists_roundWithAccuracy format (mantissa * 2 ^ filled) (exponent - filled) long
    (by omega) (by omega) sign
  rw [top] at rounded
  rw [UnpackedFloat.round, decreaseExponent]
  simp only [← count, Nat.shiftLeft_eq]
  exact rounded

/-! ## Cutting -/

theorem floor_magnitude (mantissa : Nat) (exponent : Int) :
    ⌊magnitude mantissa exponent⌋₊ = mantissa * 2 ^ exponent.toNat / 2 ^ (-exponent).toNat := by
  rcases Int.le_total 0 exponent with up | down
  · obtain ⟨power, rfl⟩ := Int.eq_ofNat_of_zero_le up
    have none : (-(power : Int)).toNat = 0 := by omega
    rw [magnitude_natCast, Nat.floor_natCast, none, Int.toNat_natCast, Nat.pow_zero, Nat.div_one]
  · obtain ⟨power, negated⟩ := Int.eq_ofNat_of_zero_le (Int.neg_nonneg_of_nonpos down)
    obtain rfl : exponent = -power := by omega
    have part : magnitude mantissa (-power) = (mantissa : ℚ) / (2 ^ power : Nat) := by
      rw [magnitude, zpow_neg, zpow_natCast, div_eq_mul_inv]
      push_cast
      rfl
    have none : (-(power : Int)).toNat = 0 := by omega
    rw [part, Nat.floor_div_eq_div, none, Nat.pow_zero, Nat.mul_one, Int.neg_neg,
      Int.toNat_natCast]

/-- What lies after the point is cut off. -/
theorem roundToInt_eq (sign : Sign) (mantissa : Nat) (exponent : Int) :
    roundToInt sign mantissa exponent = sign.apply ⌊magnitude mantissa exponent⌋₊ := by
  have shift : (0 - (exponent - exponent.toNat)).toNat = (-exponent).toNat := by omega
  simp only [floor_magnitude, roundToInt, decreaseExponent, shiftToExponent, Int.sub_zero, shift,
    mantissa_shiftRight, ExtendedMantissa.ofMantissaAndAccuracy, Nat.shiftLeft_eq]

end Resampler
