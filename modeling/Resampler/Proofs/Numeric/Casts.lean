import Resampler.Numeric.Cast
import Resampler.Proofs.Numeric.Reading

/-!
Contract: what singles and doubles stand for across conversions.

Owns:
- the readings of singles and doubles, and the numbers that they can have;
- widening, which keeps the reading, and integers, which become themselves;
- the cuts to integers, which drop what lies after the point and stay within
  the type;
- exact differences and scalings of doubles;
- the order of singles as an order of numbers.

Does not own: the step of a speed.
-/

namespace Resampler

open Float.Model Float.Model.UnpackedFloat

namespace Reading

def ofSingle (value : Float32) : Reading := ofUnpacked value.toModel.unpack

def ofDouble (value : Float) : Reading := ofUnpacked value.toModel.unpack

end Reading

open Reading

/-! ## Singles and doubles -/

theorem reads_ofSingle {single : Float32} {value : ℚ} (reads : ofSingle single = .number value) :
    Reads .binary32 single.toModel.unpack value :=
  ⟨kept_unpack (by decide) _, reads⟩

theorem reads_ofDouble {double : Float} {value : ℚ} (reads : ofDouble double = .number value) :
    Reads .binary64 double.toModel.unpack value :=
  ⟨kept_unpack (by decide) _, reads⟩

theorem unpack_of_infinite {single : Float32} {sign : Sign}
    (reads : ofSingle single = .infinite sign) : single.toModel.unpack = .infinity sign := by
  rw [ofSingle] at reads
  cases unpacked : single.toModel.unpack <;> rw [unpacked] at reads <;> cases reads
  rfl

theorem unpack_of_notANumber {single : Float32} (reads : ofSingle single = .notANumber) :
    single.toModel.unpack = .notANumber := by
  rw [ofSingle] at reads
  cases unpacked : single.toModel.unpack <;> rw [unpacked] at reads <;> cases reads

theorem ofSingle_of_unpack {single : Float32} {power : Nat} {exponent : Int}
    {positive : 0 < 2 ^ power}
    (unpacked : single.toModel.unpack = .finite .positive (2 ^ power) exponent positive) :
    ofSingle single = .number (2 ^ (power + exponent)) :=
  (reads_of_unpack (by decide) unpacked).reads

/-- Packing as a double keeps the reading. -/
theorem ofDouble_pack {float : UnpackedFloat} {value : ℚ} (reads : Reads .binary64 float value) :
    ofDouble ⟨Float.Model.pack float⟩ = .number value :=
  (congrArg ofUnpacked (unpack_pack_of_kept reads.kept)).trans reads.reads

theorem Reads.represents {format : Format} {float : UnpackedFloat} {value : ℚ}
    (wide : 2 ≤ format.exponentBits) (reads : Reads format float value) :
    Represents format value := by
  have least := minExponent_eq format
  rcases reads.cases with ⟨sign, rfl, rfl⟩ |
    ⟨sign, mantissa, exponent, positive, rfl, stored, rfl⟩
  · have range : 2 ^ 2 ≤ 2 ^ format.exponentBits := Nat.pow_le_pow_right (by decide) wide
    zify at range
    exact ⟨0, format.minExponent, by simp [magnitude], by positivity, Int.le_refl _, by omega⟩
  · exact stored.represents sign

theorem represents_binary32_iff {value : ℚ} :
    Represents .binary32 value ↔
      ∃ mantissa exponent, |value| = magnitude mantissa exponent ∧ mantissa < 2 ^ 24 ∧
        -149 ≤ exponent ∧ exponent ≤ 104 := by
  simp only [Represents, Format.mantissaBits, Format.minExponent, Format.exponentBias]
  constructor <;> rintro ⟨mantissa, exponent, same, fits, above, below⟩ <;>
    refine ⟨mantissa, exponent, same, by omega, by omega, by omega⟩

theorem represents_binary64_iff {value : ℚ} :
    Represents .binary64 value ↔
      ∃ mantissa exponent, |value| = magnitude mantissa exponent ∧ mantissa < 2 ^ 53 ∧
        -1074 ≤ exponent ∧ exponent ≤ 971 := by
  simp only [Represents, Format.mantissaBits, Format.minExponent, Format.exponentBias]
  constructor <;> rintro ⟨mantissa, exponent, same, fits, above, below⟩ <;>
    refine ⟨mantissa, exponent, same, by omega, by omega, by omega⟩

theorem Represents.widen {value : ℚ} (represents : Represents .binary32 value) :
    Represents .binary64 value := by
  obtain ⟨mantissa, exponent, same, fits, above, below⟩ := represents_binary32_iff.1 represents
  exact represents_binary64_iff.2
    ⟨mantissa, exponent, same, by omega, by omega, by omega⟩

theorem represents_ofSingle {single : Float32} {value : ℚ}
    (reads : ofSingle single = .number value) : Represents .binary32 value :=
  (reads_ofSingle reads).represents (by decide)

theorem represents_ofDouble {double : Float} {value : ℚ}
    (reads : ofDouble double = .number value) : Represents .binary64 value :=
  (reads_ofDouble reads).represents (by decide)

theorem represents_abs_iff {format : Format} {value : ℚ} :
    Represents format |value| ↔ Represents format value := by
  rw [Represents, Represents, abs_abs]

theorem Represents.abs_lt {value : ℚ} (represents : Represents .binary32 value) :
    |value| < 2 ^ 128 := by
  obtain ⟨mantissa, exponent, same, fits, above, below⟩ := represents_binary32_iff.1 represents
  calc |value| = mantissa * 2 ^ exponent := same
    _ < 2 ^ 24 * 2 ^ exponent := by
        have scale : (0 : ℚ) < 2 ^ exponent := by positivity
        exact mul_lt_mul_of_pos_right (mod_cast fits) scale
    _ ≤ 2 ^ 24 * 2 ^ (104 : Int) := by
        gcongr
        exact one_le_two
    _ = 2 ^ 128 := by norm_num

/-- Integers of few enough bits are doubles. -/
theorem represents_integer {integer : Int} (short : integer.natAbs < 2 ^ 53) :
    Represents .binary64 integer := by
  refine represents_binary64_iff.2 ⟨integer.natAbs, 0, ?_, short, by decide, by decide⟩
  rw [magnitude, zpow_zero, mul_one, Nat.cast_natAbs, Int.cast_abs]

/-! ## Conversions -/

theorem ofDouble_widen (single : Float32) : ofDouble (widen single) = ofSingle single := by
  have kept : Kept .binary32 single.toModel.unpack := kept_unpack (by decide) _
  rw [ofSingle, widen]
  generalize single.toModel.unpack = float at kept ⊢
  cases float with
  | finite sign mantissa exponent positive =>
      exact ofDouble_pack (reads_round (Stored.represents kept sign).widen positive)
  | zero sign => exact ofDouble_pack (reads_zero sign)
  | infinity sign => exact congrArg ofUnpacked (unpack_packedInfinity sign)
  | notANumber => exact congrArg ofUnpacked unpack_packedNaN

theorem ofDouble_ofSigned (integer : Int32) :
    ofDouble (ofSigned integer) = .number integer.toInt := by
  have lower := integer.le_toInt
  have upper := integer.toInt_lt
  have short : integer.toInt.natAbs < 2 ^ 53 := by omega
  have whole : (integer.toInt : ℚ) * 2 ^ (0 : Int) = integer.toInt := by
    rw [zpow_zero, mul_one]
  have reads := @reads_normalize .binary64 0 integer.toInt
    (by rw [whole]; exact represents_integer short) .positive
  rw [whole] at reads
  exact ofDouble_pack reads

/-! ## Cuts -/

section Cuts

variable {format : Format} {float : UnpackedFloat} {value : ℚ} (least most : Int)

theorem toInt_of_reads (reads : Reads format float value) :
    float.toInt least most = if 0 ≤ value then (⌊value⌋₊ : Int) else -⌊-value⌋₊ := by
  rcases reads.cases with ⟨sign, rfl, rfl⟩ | ⟨sign, mantissa, exponent, positive, rfl, stored, rfl⟩
  · simp [UnpackedFloat.toInt]
  · have above := magnitude_pos positive exponent
    rw [UnpackedFloat.toInt, roundToInt_eq]
    cases sign with
    | positive => rw [signed_positive, if_pos above.le, Sign.apply]
    | negative =>
        have below : ¬ 0 ≤ -magnitude mantissa exponent := by linarith
        rw [signed_negative, if_neg below, neg_neg, Sign.apply]

end Cuts

private theorem toNat_ofNatClamp (number : Nat) :
    (UInt32.ofNatClamp number).toNat = min number (2 ^ 32 - 1) := by
  rw [UInt32.ofNatClamp]
  split <;> rename_i inRange
  · rw [UInt32.toNat_ofNatLT]
    rw [UInt32.size] at inRange
    omega
  · rw [UInt32.toNat_ofNatLT]
    rw [UInt32.size] at inRange ⊢
    omega

private theorem toInt_ofIntClamp (integer : Int) :
    (Int32.ofIntClamp integer).toInt = max (-2 ^ 31) (min integer (2 ^ 31 - 1)) := by
  have least : Int32.minValue.toInt = -2 ^ 31 := by decide
  have most : Int32.maxValue.toInt = 2 ^ 31 - 1 := by decide
  rw [Int32.ofIntClamp]
  split <;> rename_i above
  · split <;> rename_i below
    · rw [Int32.toInt_ofIntLE]
      omega
    · omega
  · omega

variable {double : Float} {value : ℚ}

/-- The cut to an unsigned integer stays within the type. -/
theorem toNat_toUInt32 (reads : ofDouble double = .number value) :
    double.toUInt32.toNat = min ⌊value⌋₊ (2 ^ 32 - 1) := by
  rw [Float.toUInt32, Float.Model.toUInt32, UnpackedFloat.toUInt32, toNat_ofNatClamp,
    toInt_of_reads _ _ (reads_ofDouble reads)]
  split
  · rw [Int.toNat_natCast]
  · rename_i below
    rw [Nat.floor_of_nonpos (le_of_not_ge below)]
    omega

/-- So does the cut to a signed integer, which has room for one more below zero than above. -/
theorem toInt_cutSigned (reads : ofDouble double = .number value) :
    (cutSigned double).toInt = if 0 ≤ value then ((min ⌊value⌋₊ (2 ^ 31 - 1) : Nat) : Int)
      else -(min ⌊-value⌋₊ (2 ^ 31) : Nat) := by
  rw [cutSigned, Float.Model.toInt32, UnpackedFloat.toInt32, toInt_ofIntClamp,
    toInt_of_reads _ _ (reads_ofDouble reads)]
  split <;> omega

/-! ## Differences and scalings of doubles -/

theorem ofDouble_sub {left right : Float} {first second : ℚ}
    (leftReads : ofDouble left = .number first) (rightReads : ofDouble right = .number second)
    (represents : Represents .binary64 (first - second)) :
    ofDouble (left - right) = .number (first - second) :=
  ofDouble_pack (reads_sub (reads_ofDouble leftReads) (reads_ofDouble rightReads) represents)

/-- A difference too long for a double keeps its sign, and is not rounded across a power of two. -/
theorem exists_ofDouble_sub {left right : Float} {first second : ℚ} {power top : Int}
    (leftReads : ofDouble left = .number first) (rightReads : ofDouble right = .number second)
    (leftSome : first ≠ 0) (rightSome : second ≠ 0) (least : 2 ^ power ≤ |first - second|)
    (most : |first - second| < 2 ^ top) (above : -1022 ≤ power) (bounded : top < 1024) :
    ∃ value, ofDouble (left - right) = .number value ∧ 2 ^ power ≤ |value| ∧ |value| ≤ 2 ^ top ∧
      0 ≤ value * (first - second) := by
  have normal : Format.binary64.minExponent + Format.binary64.mantissaBitsWithoutImplicit ≤
      power := by
    simp only [Format.minExponent, Format.mantissaBits]
    omega
  have finite : top + Format.binary64.exponentBias + 1 < 2 ^ Format.binary64.exponentBits := by
    simp only [Format.exponentBias]
    omega
  obtain ⟨value, reads, bounds⟩ := exists_reads_sub (reads_ofDouble leftReads)
    (reads_ofDouble rightReads) leftSome rightSome least most normal finite
  exact ⟨value, ofDouble_pack reads, bounds⟩

private theorem reads_word : Reads .binary64 (4294967296 : Float).toModel.unpack (2 ^ 32) := by
  have unpacked : (4294967296 : Float).toModel.unpack =
      .finite .positive (2 ^ 52) (-20) (by decide) := rfl
  have reads := reads_of_unpack (by decide) unpacked
  norm_num at reads ⊢
  exact reads

/-- A number that is not large is a double also when it is scaled up. -/
private theorem represents_mul_word (represents : Represents .binary64 value)
    (bounded : |value| ≤ 2 ^ 129) : Represents .binary64 (value * 2 ^ 32) := by
  obtain ⟨mantissa, exponent, same, fits, above, below⟩ := represents_binary64_iff.1 represents
  refine represents_binary64_iff.2 ?_
  rcases Nat.eq_zero_or_pos mantissa with rfl | positive
  · have none : value = 0 := by simpa [magnitude] using same
    exact ⟨0, 0, by simp [none, magnitude], by decide, by decide, by decide⟩
  · have scaled : |value * 2 ^ 32| = magnitude mantissa (exponent + 32) := by
      rw [abs_mul, same, magnitude, magnitude, zpow_add₀ (by norm_num), mul_assoc]
      norm_num
    have least : (2 : ℚ) ^ exponent ≤ 2 ^ (129 : Int) := by
      have unit : magnitude (2 ^ 0) exponent ≤ magnitude mantissa exponent :=
        magnitude_mono positive _
      rw [magnitude_two_pow, Nat.cast_zero, zero_add] at unit
      exact unit.trans (same ▸ mod_cast bounded)
    have := (zpow_le_zpow_iff_right₀ (one_lt_two : (1 : ℚ) < 2)).1 least
    exact ⟨mantissa, exponent + 32, scaled, fits, by omega, by omega⟩

theorem ofDouble_mul_word (reads : ofDouble double = .number value) (bounded : |value| ≤ 2 ^ 129) :
    ofDouble (double * 4294967296) = .number (value * 2 ^ 32) :=
  ofDouble_pack (reads_mul (reads_ofDouble reads) reads_word
    (represents_mul_word (represents_ofDouble reads) bounded))

/-! ## Order -/

/-- With one exponent the mantissas are ordered as the numbers are. A greater exponent than the
least goes with a mantissa that has all its bits. -/
private theorem magnitude_le_of_compare {format : Format} {lessMantissa moreMantissa : Nat}
    {lessExponent moreExponent : Int} (less : Stored format lessMantissa lessExponent)
    (more : Stored format moreMantissa moreExponent)
    (ordered : lessExponent < moreExponent ∨
      lessExponent = moreExponent ∧ lessMantissa ≤ moreMantissa) :
    magnitude lessMantissa lessExponent ≤ magnitude moreMantissa moreExponent := by
  rcases ordered with lower | ⟨rfl, smaller⟩
  · have full : moreMantissa.log2 = format.mantissaBitsWithoutImplicit := by
      have := less.minExponent_le
      rcases more.full_or_least with ⟨full, _⟩ | ⟨_, least⟩
      · exact full
      · omega
    calc magnitude lessMantissa lessExponent
        ≤ magnitude (2 ^ format.mantissaBits) lessExponent :=
          magnitude_mono less.lt_two_pow.le _
      _ = 2 ^ (format.mantissaBits + lessExponent) := magnitude_two_pow _ _
      _ ≤ 2 ^ (format.mantissaBitsWithoutImplicit + moreExponent) := by
          apply zpow_le_zpow_right₀ one_le_two
          rw [Format.mantissaBits]
          push_cast
          omega
      _ = magnitude (2 ^ format.mantissaBitsWithoutImplicit) moreExponent :=
          (magnitude_two_pow _ _).symm
      _ ≤ magnitude moreMantissa moreExponent :=
          magnitude_mono (full ▸ Nat.log2_self_le more.positive.ne') _
  · exact magnitude_mono smaller _

private theorem compare_of_magnitude_le {format : Format} {lessMantissa moreMantissa : Nat}
    {lessExponent moreExponent : Int} (less : Stored format lessMantissa lessExponent)
    (more : Stored format moreMantissa moreExponent)
    (ordered : magnitude lessMantissa lessExponent ≤ magnitude moreMantissa moreExponent) :
    lessExponent < moreExponent ∨ lessExponent = moreExponent ∧ lessMantissa ≤ moreMantissa := by
  by_contra reversed
  have greater := magnitude_le_of_compare more less (by omega)
  have same := less.unique more (le_antisymm greater ordered)
  omega

/-- Exponents are compared first, then mantissas. -/
private theorem isLE_then_iff {lessMantissa moreMantissa : Nat} {lessExponent moreExponent : Int} :
    ((compare lessExponent moreExponent).then (compare lessMantissa moreMantissa)).isLE = true ↔
      lessExponent < moreExponent ∨ lessExponent = moreExponent ∧ lessMantissa ≤ moreMantissa := by
  rcases lt_trichotomy lessExponent moreExponent with below | rfl | above
  · rw [compare_lt_iff_lt.2 below, Ordering.lt_then]
    exact iff_of_true rfl (.inl below)
  · rw [compare_eq_iff_eq.2 rfl, Ordering.eq_then, Nat.isLE_compare]
    simp
  · rw [compare_gt_iff_gt.2 above, Ordering.gt_then]
    exact iff_of_false Bool.false_ne_true (by omega)

private theorem le_of_compare {format : Format} {left right : UnpackedFloat} {first second : ℚ}
    (leftReads : Reads format left first) (rightReads : Reads format right second)
    (ordered : (left.compare right).any (·.isLE) = true) : first ≤ second := by
  rcases leftReads.cases with ⟨leftSign, rfl, rfl⟩ |
    ⟨leftSign, leftMantissa, leftExponent, leftPositive, rfl, leftStored, rfl⟩ <;>
  rcases rightReads.cases with ⟨rightSign, rfl, rfl⟩ |
    ⟨rightSign, rightMantissa, rightExponent, rightPositive, rfl, rightStored, rfl⟩
  · exact le_rfl
  · cases rightSign with
    | positive => exact (signed_positive _ _).symm ▸ magnitude_nonneg _ _
    | negative => cases ordered
  · cases leftSign with
    | positive => cases ordered
    | negative => exact (signed_negative _ _).symm ▸ neg_nonpos.2 (magnitude_nonneg _ _)
  · cases leftSign with
    | positive =>
        cases rightSign with
        | positive =>
            rw [signed_positive, signed_positive]
            exact magnitude_le_of_compare leftStored rightStored (isLE_then_iff.1 ordered)
        | negative => cases ordered
    | negative =>
        cases rightSign with
        | positive =>
            rw [signed_negative, signed_positive]
            have := magnitude_nonneg leftMantissa leftExponent
            have := magnitude_nonneg rightMantissa rightExponent
            linarith
        | negative =>
            rw [signed_negative, signed_negative]
            have swapped : ((compare leftExponent rightExponent).then
                (compare leftMantissa rightMantissa)).swap =
                (compare rightExponent leftExponent).then (compare rightMantissa leftMantissa) := by
              rw [Ordering.swap_then, Int.compare_swap, Nat.compare_swap]
            have reversed : (((compare leftExponent rightExponent).then
                (compare leftMantissa rightMantissa)).swap).isLE = true := ordered
            rw [swapped] at reversed
            exact neg_le_neg
              (magnitude_le_of_compare rightStored leftStored (isLE_then_iff.1 reversed))

/-- Ordered singles are ordered numbers, unless one of them is infinite. -/
theorem ofSingle_of_le {slower faster : Float32} (ordered : slower ≤ faster) :
    (∃ less more, ofSingle slower = .number less ∧ ofSingle faster = .number more ∧ less ≤ more) ∨
      ofSingle slower = .infinite .negative ∨ ofSingle faster = .infinite .positive := by
  have compares : (slower.toModel.unpack.compare faster.toModel.unpack).any (·.isLE) = true :=
    of_decide_eq_true ordered
  have slowerKept : Kept .binary32 slower.toModel.unpack := kept_unpack (by decide) _
  have fasterKept : Kept .binary32 faster.toModel.unpack := kept_unpack (by decide) _
  rw [ofSingle, ofSingle]
  generalize slower.toModel.unpack = left at compares slowerKept ⊢
  generalize faster.toModel.unpack = right at compares fasterKept ⊢
  cases left with
  | notANumber => cases right <;> cases compares
  | infinity sign =>
      cases sign with
      | negative => exact .inr (.inl rfl)
      | positive =>
          cases right with
          | infinity sign =>
              cases sign with
              | positive => exact .inr (.inr rfl)
              | negative => cases compares
          | _ => cases compares
  | _ =>
      cases right with
      | notANumber => cases compares
      | infinity sign =>
          cases sign with
          | positive => exact .inr (.inr rfl)
          | negative => cases compares
      | _ => exact .inl ⟨_, _, rfl, rfl,
          le_of_compare ⟨slowerKept, rfl⟩ ⟨fasterKept, rfl⟩ compares⟩

theorem positive_of_signed_pos {sign : Sign} {mantissa : Nat} {exponent : Int}
    (above : 0 < signed sign mantissa exponent) : sign = .positive := by
  cases sign with
  | positive => rfl
  | negative =>
      rw [signed_negative] at above
      have := magnitude_nonneg mantissa exponent
      linarith

/-- From a single above zero on, numbers in order are singles in order. -/
theorem le_of_ofSingle {slower faster : Float32} {less more : ℚ}
    (slowerReads : ofSingle slower = .number less) (fasterReads : ofSingle faster = .number more)
    (above : 0 < less) (ordered : less ≤ more) : slower ≤ faster := by
  have compares : (slower.toModel.unpack.compare faster.toModel.unpack).any (·.isLE) = true := by
    rcases (reads_ofSingle slowerReads).cases with ⟨_, _, rfl⟩ |
      ⟨slowerSign, slowerMantissa, slowerExponent, slowerPositive, slowerUnpacked, slowerStored, rfl⟩
    · exact absurd above (lt_irrefl 0)
    rcases (reads_ofSingle fasterReads).cases with ⟨_, _, rfl⟩ |
      ⟨fasterSign, fasterMantissa, fasterExponent, fasterPositive, fasterUnpacked, fasterStored, rfl⟩
    · linarith
    obtain rfl := positive_of_signed_pos above
    obtain rfl := positive_of_signed_pos (above.trans_le ordered)
    rw [signed_positive, signed_positive] at ordered
    rw [slowerUnpacked, fasterUnpacked]
    exact isLE_then_iff.2 (compare_of_magnitude_le slowerStored fasterStored ordered)
  exact decide_eq_true compares

theorem le_of_infinite {slower faster : Float32} {less : ℚ}
    (slowerReads : ofSingle slower = .number less)
    (fasterReads : ofSingle faster = .infinite .positive) : slower ≤ faster := by
  have compares : (slower.toModel.unpack.compare faster.toModel.unpack).any (·.isLE) = true := by
    rw [unpack_of_infinite fasterReads]
    rcases (reads_ofSingle slowerReads).cases with ⟨sign, unpacked, _⟩ |
      ⟨sign, mantissa, exponent, positive, unpacked, _⟩ <;> rw [unpacked] <;> rfl
  exact decide_eq_true compares

end Resampler
