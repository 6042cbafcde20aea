import Resampler.Proofs.Numeric.Stored

/-!
Contract: what an unpacked float stands for, and which operations are exact.

Owns:
- the rational number, infinity, or absence of a number that a float stands for;
- the numbers that a format represents;
- sums, differences, products, and quotients that are represented, and so are exact;
- the sign and the size of a difference that is not;
- packing, which keeps all that an operation yields.

Does not own: the pairs in which a format stores its numbers, or conversions
between formats and integers.
-/

namespace Resampler

open Float.Model Float.Model.UnpackedFloat

/-- What a float stands for. -/
inductive Reading where
  | number (value : ℚ)
  | infinite (sign : Sign)
  | notANumber

namespace Reading

def signed (sign : Sign) (mantissa : Nat) (exponent : Int) : ℚ :=
  (sign.apply mantissa : Int) * 2 ^ exponent

def ofUnpacked : UnpackedFloat → Reading
  | .finite sign mantissa exponent _ => number (signed sign mantissa exponent)
  | .zero _ => number 0
  | .infinity sign => infinite sign
  | .notANumber => notANumber

end Reading

open Reading

def Kept (format : Format) : UnpackedFloat → Prop
  | .finite _ mantissa exponent _ => Stored format mantissa exponent
  | _ => True

structure Reads (format : Format) (float : UnpackedFloat) (value : ℚ) : Prop where
  kept : Kept format float
  reads : ofUnpacked float = .number value

def Represents (format : Format) (value : ℚ) : Prop :=
  ∃ mantissa exponent, |value| = magnitude mantissa exponent ∧
    mantissa < 2 ^ format.mantissaBits ∧ format.minExponent ≤ exponent ∧
      exponent + format.exponentBias + format.mantissaBitsWithoutImplicit + 1 <
        2 ^ format.exponentBits

variable {format : Format} {sign : Sign} {mantissa : Nat} {exponent : Int}

/-! ## Numbers -/

theorem signed_positive (mantissa : Nat) (exponent : Int) :
    signed .positive mantissa exponent = magnitude mantissa exponent := by
  simp [signed, magnitude, Sign.apply]

theorem signed_negative (mantissa : Nat) (exponent : Int) :
    signed .negative mantissa exponent = -magnitude mantissa exponent := by
  simp [signed, magnitude, Sign.apply]

theorem signed_eq_apply_mul (sign : Sign) (mantissa : Nat) (exponent : Int) :
    signed sign mantissa exponent = (sign.apply 1 : Int) * magnitude mantissa exponent := by
  cases sign with
  | positive => simp [signed_positive, Sign.apply]
  | negative => simp [signed_negative, Sign.apply]

private theorem apply_neg (sign : Sign) (integer : Int) :
    (-sign).apply integer = -sign.apply integer := by
  cases sign with
  | positive => rfl
  | negative => exact (neg_neg integer).symm

theorem signed_neg (sign : Sign) (mantissa : Nat) (exponent : Int) :
    signed (-sign) mantissa exponent = -signed sign mantissa exponent := by
  rw [signed, signed, apply_neg, Int.cast_neg, neg_mul]

theorem magnitude_nonneg (mantissa : Nat) (exponent : Int) : 0 ≤ magnitude mantissa exponent := by
  unfold magnitude
  positivity

theorem magnitude_pos (positive : 0 < mantissa) (exponent : Int) :
    0 < magnitude mantissa exponent := by
  unfold magnitude
  positivity

theorem abs_signed (sign : Sign) (mantissa : Nat) (exponent : Int) :
    |signed sign mantissa exponent| = magnitude mantissa exponent := by
  cases sign with
  | positive => rw [signed_positive, abs_of_nonneg (magnitude_nonneg _ _)]
  | negative => rw [signed_negative, abs_neg, abs_of_nonneg (magnitude_nonneg _ _)]

theorem signed_congr {other : Nat} {power : Int}
    (same : magnitude mantissa exponent = magnitude other power) (sign : Sign) :
    signed sign mantissa exponent = signed sign other power := by
  cases sign with
  | positive => rw [signed_positive, signed_positive, same]
  | negative => rw [signed_negative, signed_negative, same]

/-- Zeros are filled in without a change of the number. -/
theorem signed_decreaseExponent (sign : Sign) (mantissa : Nat) {exponent target : Int}
    (ordered : target ≤ exponent) :
    (sign.apply (decreaseExponent mantissa exponent target).1 : Int) * (2 : ℚ) ^ target =
      signed sign mantissa exponent := by
  have distance : target + (exponent - target).toNat = exponent := by omega
  apply signed_congr
  rw [decreaseExponent, Nat.shiftLeft_eq, magnitude_mul_two_pow, distance]

/-! ## Packing -/

theorem unpack_packedInfinity (sign : Sign) :
    UnpackedFloat.unpack format (packedInfinity format sign) = .infinity sign := by
  rw [packedInfinity, UnpackedFloat.unpack]
  simp [unpackMantissa_packComponents, unpackExponent_packComponents]

theorem unpack_pack_of_kept {float : UnpackedFloat} (kept : Kept format float) :
    UnpackedFloat.unpack format (UnpackedFloat.pack format float) = float := by
  cases float with
  | notANumber => exact unpack_packedNaN
  | infinity sign => exact unpack_packedInfinity sign
  | zero sign => exact unpack_packedZero
  | finite sign mantissa exponent positive => exact unpack_pack kept sign positive

theorem kept_unpack (wide : 2 ≤ format.exponentBits) (bits : BitVec format.numBits) :
    Kept format (UnpackedFloat.unpack format bits) := by
  generalize unpacked : UnpackedFloat.unpack format bits = float
  cases float with
  | finite sign mantissa exponent positive => exact stored_of_unpack wide unpacked
  | _ => trivial

/-- What is unpacked as a power of two stands for it. -/
theorem reads_of_unpack (wide : 2 ≤ format.exponentBits) {bits : BitVec format.numBits}
    {power : Nat} {positive : 0 < 2 ^ power}
    (unpacked : UnpackedFloat.unpack format bits = .finite .positive (2 ^ power) exponent positive) :
    Reads format (UnpackedFloat.unpack format bits) (2 ^ (power + exponent)) := by
  refine ⟨kept_unpack wide bits, ?_⟩
  rw [unpacked, ofUnpacked, signed_positive, magnitude_two_pow]

/-! ## Exact operations -/

theorem Reads.unpack_pack {float : UnpackedFloat} {value : ℚ} (reads : Reads format float value) :
    Reads format (UnpackedFloat.unpack format (UnpackedFloat.pack format float)) value :=
  (unpack_pack_of_kept reads.kept).symm ▸ reads

theorem reads_zero (sign : Sign) : Reads format (.zero sign) 0 := ⟨trivial, rfl⟩

theorem Stored.represents (stored : Stored format mantissa exponent) (sign : Sign) :
    Represents format (signed sign mantissa exponent) :=
  ⟨mantissa, exponent, abs_signed _ _ _, stored.lt_two_pow, stored.minExponent_le, stored.bounded⟩

/-- A number that is represented is stored as some pair. -/
theorem Represents.exists_stored {value : ℚ} (represents : Represents format value)
    (some : value ≠ 0) :
    ∃ kept power, Stored format kept power ∧ |value| = magnitude kept power := by
  obtain ⟨other, lower, same, fits, above, bounded⟩ := represents
  have otherPositive : 0 < other := by
    apply Nat.pos_of_ne_zero
    rintro rfl
    have none : magnitude 0 lower = 0 := by simp [magnitude]
    exact some (abs_eq_zero.1 (same.trans none))
  obtain ⟨kept, power, stored, found⟩ := Resampler.exists_stored otherPositive fits above bounded
  exact ⟨kept, power, stored, same.trans found.symm⟩

theorem Represents.exists_stored_signed
    (represents : Represents format (signed sign mantissa exponent)) (positive : 0 < mantissa) :
    ∃ kept power, Stored format kept power ∧
      magnitude mantissa exponent = magnitude kept power := by
  have some : signed sign mantissa exponent ≠ 0 := by
    rw [← abs_pos, abs_signed]
    exact magnitude_pos positive exponent
  have found := represents.exists_stored some
  rwa [abs_signed] at found

theorem reads_round (represents : Represents format (signed sign mantissa exponent))
    (positive : 0 < mantissa) :
    Reads format (UnpackedFloat.round format sign mantissa exponent)
      (signed sign mantissa exponent) := by
  obtain ⟨kept, power, stored, same⟩ := represents.exists_stored_signed positive
  rw [round_of_stored stored same]
  exact ⟨stored, congrArg number (signed_congr same.symm sign)⟩

/-- The integer with a sign and a mantissa, split as normalization splits it. -/
theorem exists_signed {integer : Int} (some : integer ≠ 0) (zeroSign : Sign) :
    ∃ sign mantissa, 0 < mantissa ∧ (∀ exponent : Int,
      integer * 2 ^ exponent = signed sign mantissa exponent) ∧ ∀ exponent,
        UnpackedFloat.normalize format integer exponent zeroSign =
          UnpackedFloat.round format sign mantissa exponent := by
  rcases lt_or_gt_of_ne some with below | above
  · refine ⟨.negative, (-integer).toNat, by omega, fun exponent => ?_, fun exponent => ?_⟩
    · have negated : Sign.negative.apply ((-integer).toNat : Int) = integer := by
        rw [Sign.apply]
        omega
      rw [signed, negated]
    · unfold UnpackedFloat.normalize
      simp only [compare_lt_iff_lt.2 below]
  · refine ⟨.positive, integer.toNat, by omega, fun exponent => ?_, fun exponent => ?_⟩
    · have kept : Sign.positive.apply (integer.toNat : Int) = integer := by
        rw [Sign.apply]
        omega
      rw [signed, kept]
    · unfold UnpackedFloat.normalize
      simp only [compare_gt_iff_gt.2 above]

theorem reads_normalize {integer : Int} (represents : Represents format (integer * 2 ^ exponent))
    (zeroSign : Sign) :
    Reads format (UnpackedFloat.normalize format integer exponent zeroSign)
      (integer * 2 ^ exponent) := by
  by_cases none : integer = 0
  · subst none
    unfold UnpackedFloat.normalize
    simpa using reads_zero zeroSign
  · obtain ⟨sign, mantissa, positive, splits, normalizes⟩ :=
      @exists_signed format integer none zeroSign
    rw [splits] at represents ⊢
    rw [normalizes]
    exact reads_round represents positive

variable {left right : UnpackedFloat} {first second : ℚ}

/-- A float that stands for a number is a zero or finite. -/
theorem Reads.cases {float : UnpackedFloat} {value : ℚ} (reading : Reads format float value) :
    (∃ sign, float = .zero sign ∧ value = 0) ∨
      ∃ sign mantissa exponent positive, float = .finite sign mantissa exponent positive ∧
        Stored format mantissa exponent ∧ value = signed sign mantissa exponent := by
  obtain ⟨kept, reads⟩ := reading
  cases float with
  | notANumber => cases reads
  | infinity sign => cases reads
  | zero sign =>
      cases reads
      exact .inl ⟨sign, rfl, rfl⟩
  | finite sign mantissa exponent positive =>
      cases reads
      exact .inr ⟨sign, mantissa, exponent, positive, rfl, kept, rfl⟩

theorem Reads.neg {float : UnpackedFloat} {value : ℚ} (reading : Reads format float value) :
    Reads format float.neg (-value) := by
  rcases reading.cases with ⟨sign, rfl, rfl⟩ |
    ⟨sign, mantissa, exponent, positive, rfl, stored, rfl⟩
  · rw [neg_zero]
    exact reads_zero _
  · rw [← signed_neg]
    exact ⟨stored, rfl⟩

theorem reads_add (leftReads : Reads format left first) (rightReads : Reads format right second)
    (represents : Represents format (first + second)) :
    Reads format (UnpackedFloat.add format left right) (first + second) := by
  rcases leftReads.cases with ⟨leftSign, rfl, rfl⟩ |
    ⟨leftSign, leftMantissa, leftExponent, leftPositive, rfl, leftStored, rfl⟩
  · rcases rightReads.cases with ⟨rightSign, rfl, rfl⟩ |
      ⟨rightSign, rightMantissa, rightExponent, rightPositive, rfl, rightStored, rfl⟩
    · rw [add_zero]
      cases leftSign <;> cases rightSign <;> exact reads_zero _
    · rw [zero_add]
      exact rightReads
  · rcases rightReads.cases with ⟨rightSign, rfl, rfl⟩ |
      ⟨rightSign, rightMantissa, rightExponent, rightPositive, rfl, rightStored, rfl⟩
    · rw [add_zero]
      exact leftReads
    · have same := congrArg₂ (· + ·)
        (signed_decreaseExponent leftSign leftMantissa (min_le_left leftExponent rightExponent))
        (signed_decreaseExponent rightSign rightMantissa (min_le_right leftExponent rightExponent))
      simp only [← add_mul, ← Int.cast_add] at same
      rw [← same] at represents ⊢
      exact reads_normalize represents .positive

theorem unpacked_add_comm (format : Format) (left right : UnpackedFloat) :
    UnpackedFloat.add format left right = UnpackedFloat.add format right left := by
  cases left <;> cases right
  case infinity.infinity first second => cases first <;> cases second <;> rfl
  case zero.zero first second => cases first <;> cases second <;> rfl
  case finite.finite firstSign _ first _ secondSign _ second _ =>
    simp only [UnpackedFloat.add]
    rw [min_comm, Int.add_comm]
  all_goals rfl

/-- The signs of zeros and infinities follow the same rule in both. -/
theorem unpacked_sub_eq_add_neg (format : Format) (left right : UnpackedFloat) :
    UnpackedFloat.sub format left right = UnpackedFloat.add format left right.neg := by
  cases left <;> cases right
  case finite.finite =>
    simp only [UnpackedFloat.sub, UnpackedFloat.add, UnpackedFloat.neg, apply_neg, sub_eq_add_neg]
  all_goals rfl

theorem reads_sub (leftReads : Reads format left first) (rightReads : Reads format right second)
    (represents : Represents format (first - second)) :
    Reads format (UnpackedFloat.sub format left right) (first - second) := by
  rw [sub_eq_add_neg] at represents ⊢
  rw [unpacked_sub_eq_add_neg]
  exact reads_add leftReads rightReads.neg represents

theorem magnitude_mul (leftMantissa rightMantissa : Nat) (leftExponent rightExponent : Int) :
    magnitude (leftMantissa * rightMantissa) (leftExponent + rightExponent) =
      magnitude leftMantissa leftExponent * magnitude rightMantissa rightExponent := by
  rw [magnitude, magnitude, magnitude, zpow_add₀ (by norm_num)]
  push_cast
  ring

theorem signed_mul (leftSign rightSign : Sign) (leftMantissa rightMantissa : Nat)
    (leftExponent rightExponent : Int) :
    signed (leftSign * rightSign) (leftMantissa * rightMantissa) (leftExponent + rightExponent) =
      signed leftSign leftMantissa leftExponent * signed rightSign rightMantissa rightExponent := by
  have signs : (leftSign * rightSign).apply 1 = leftSign.apply 1 * rightSign.apply 1 := by
    cases leftSign <;> cases rightSign <;> rfl
  rw [signed_eq_apply_mul, signed_eq_apply_mul, signed_eq_apply_mul, magnitude_mul, signs,
    Int.cast_mul]
  exact mul_mul_mul_comm _ _ _ _

theorem signed_div {leftMantissa rightMantissa : Nat} {leftExponent rightExponent : Int}
    (quotient : magnitude mantissa exponent =
      magnitude leftMantissa leftExponent / magnitude rightMantissa rightExponent)
    (leftSign rightSign : Sign) :
    signed (leftSign / rightSign) mantissa exponent =
      signed leftSign leftMantissa leftExponent / signed rightSign rightMantissa rightExponent := by
  have signs : (((leftSign / rightSign).apply 1 : Int) : ℚ) =
      (leftSign.apply 1 : Int) / (rightSign.apply 1 : Int) := by
    have product : (leftSign / rightSign).apply 1 = leftSign.apply 1 * rightSign.apply 1 := by
      cases leftSign <;> cases rightSign <;> rfl
    rw [product]
    cases leftSign <;> cases rightSign <;> norm_num [Sign.apply]
  rw [signed_eq_apply_mul, signed_eq_apply_mul, signed_eq_apply_mul, quotient, signs]
  exact div_mul_div_comm _ _ _ _

/-- The pair that two mantissas and their exponents multiply to has no zeros to fill in: a factor
has all its bits, or both exponents are the least. -/
private theorem add_le_of_magnitude_mul {leftMantissa rightMantissa kept : Nat}
    {leftExponent rightExponent power : Int} (leftStored : Stored format leftMantissa leftExponent)
    (rightStored : Stored format rightMantissa rightExponent) (stored : Stored format kept power)
    (same : magnitude (leftMantissa * rightMantissa) (leftExponent + rightExponent) =
      magnitude kept power) : leftExponent + rightExponent ≤ power := by
  have some : leftMantissa * rightMantissa ≠ 0 :=
    (Nat.mul_pos leftStored.positive rightStored.positive).ne'
  have least := minExponent_eq format
  have above := stored.minExponent_le
  rcases leftStored.full_or_least with ⟨full, _⟩ | ⟨_, leftLeast⟩
  · apply stored.le_of_full same
    rw [← full, Nat.le_log2 some]
    exact (Nat.log2_self_le leftStored.positive.ne').trans
      (Nat.le_mul_of_pos_right _ rightStored.positive)
  rcases rightStored.full_or_least with ⟨full, _⟩ | ⟨_, rightLeast⟩
  · apply stored.le_of_full same
    rw [← full, Nat.le_log2 some]
    exact (Nat.log2_self_le rightStored.positive.ne').trans
      (Nat.le_mul_of_pos_left _ leftStored.positive)
  · have := format.hm
    omega

theorem reads_mul (leftReads : Reads format left first) (rightReads : Reads format right second)
    (represents : Represents format (first * second)) :
    Reads format (UnpackedFloat.mul format left right) (first * second) := by
  rcases leftReads.cases with ⟨leftSign, rfl, rfl⟩ |
    ⟨leftSign, leftMantissa, leftExponent, leftPositive, rfl, leftStored, rfl⟩
  · rw [zero_mul]
    rcases rightReads.cases with ⟨rightSign, rfl, _⟩ | ⟨_, _, _, _, rfl, _⟩ <;> exact reads_zero _
  rcases rightReads.cases with ⟨rightSign, rfl, rfl⟩ |
    ⟨rightSign, rightMantissa, rightExponent, rightPositive, rfl, rightStored, rfl⟩
  · rw [mul_zero]
    exact reads_zero _
  · rw [← signed_mul] at represents ⊢
    obtain ⟨kept, power, stored, same⟩ := represents.exists_stored_signed (by positivity)
    have ordered := add_le_of_magnitude_mul leftStored rightStored stored same
    rw [UnpackedFloat.mul, roundWithAccuracy_of_stored stored same ordered]
    exact ⟨stored, congrArg number (signed_congr same.symm _)⟩

/-- The division of mantissas leaves nothing over when the quotient is stored: it aims at an
exponent that is not above that of the quotient. -/
private theorem divCore_of_stored {leftMantissa rightMantissa kept : Nat}
    {leftExponent rightExponent power : Int} (rightPositive : 0 < rightMantissa)
    (stored : Stored format kept power)
    (product : magnitude (kept * rightMantissa) (power + rightExponent) =
      magnitude leftMantissa leftExponent) :
    ∃ quotient target, divCore format leftMantissa leftExponent rightMantissa rightExponent =
        (quotient, target, .exact) ∧
      magnitude quotient target = magnitude kept power ∧ target ≤ power := by
  obtain ⟨target, target_eq⟩ : ∃ target, target = min (leftExponent - rightExponent)
      (format.targetExponent (totalExponent leftMantissa leftExponent -
        totalExponent rightMantissa rightExponent)) := ⟨_, rfl⟩
  -- A product has at most one bit less than its factors together.
  have bits : (kept * rightMantissa).log2 < kept.log2 + 1 + (rightMantissa.log2 + 1) := by
    rw [Nat.log2_lt (Nat.mul_pos stored.positive rightPositive).ne', Nat.pow_add]
    exact Nat.mul_lt_mul_of_lt_of_lt Nat.lt_log2_self Nat.lt_log2_self
  have total := totalExponent_congr (Nat.mul_pos stored.positive rightPositive) product
  have aimed := stored.aimed
  have ordered : target ≤ power := by
    simp only [totalExponent, Format.targetExponent] at total aimed target_eq
    omega
  obtain ⟨shift, distance⟩ : ∃ shift : Nat, leftExponent - rightExponent - target = shift :=
    ⟨(leftExponent - rightExponent - target).toNat, by omega⟩
  have whole : leftMantissa <<< shift = kept * 2 ^ (power - target).toNat * rightMantissa := by
    have scaled : magnitude (leftMantissa * 2 ^ shift) (target + rightExponent) =
        magnitude (kept * rightMantissa) (power + rightExponent) := by
      rw [magnitude_mul_two_pow, product]
      congr 1
      omega
    have zeros : (power + rightExponent - (target + rightExponent)).toNat =
        (power - target).toNat := by omega
    rw [Nat.shiftLeft_eq, eq_mul_two_pow_of_magnitude scaled (by omega), zeros]
    exact Nat.mul_right_comm _ _ _
  refine ⟨kept * 2 ^ (power - target).toNat, target, ?_, ?_, ordered⟩
  · simp only [divCore, ← target_eq, distance, Int.toNat_natCast, whole,
      Nat.mul_div_cancel _ rightPositive, Nat.mul_mod_left, accuracyOfFraction, if_true]
  · have distance : target + (power - target).toNat = power := by omega
    rw [magnitude_mul_two_pow, distance]

theorem reads_div (leftReads : Reads format left first) (rightReads : Reads format right second)
    (some : second ≠ 0) (represents : Represents format (first / second)) :
    Reads format (UnpackedFloat.div format left right) (first / second) := by
  rcases rightReads.cases with ⟨_, rfl, rfl⟩ |
    ⟨rightSign, rightMantissa, rightExponent, rightPositive, rfl, rightStored, rfl⟩
  · exact absurd rfl some
  rcases leftReads.cases with ⟨leftSign, rfl, rfl⟩ |
    ⟨leftSign, leftMantissa, leftExponent, leftPositive, rfl, leftStored, rfl⟩
  · rw [zero_div]
    exact reads_zero _
  have leftSome := magnitude_pos leftPositive leftExponent
  have rightSome := magnitude_pos rightPositive rightExponent
  have nonzero : signed leftSign leftMantissa leftExponent /
      signed rightSign rightMantissa rightExponent ≠ 0 := by
    rw [← abs_pos, abs_div, abs_signed, abs_signed]
    exact div_pos leftSome rightSome
  obtain ⟨kept, power, stored, same⟩ := represents.exists_stored nonzero
  rw [abs_div, abs_signed, abs_signed] at same
  have product : magnitude (kept * rightMantissa) (power + rightExponent) =
      magnitude leftMantissa leftExponent := by
    rw [magnitude_mul, ← same, div_mul_cancel₀ _ rightSome.ne']
  obtain ⟨quotient, target, divided, found, ordered⟩ :=
    divCore_of_stored rightPositive stored product
  rw [UnpackedFloat.div, divided]
  simp only [roundWithAccuracy_of_stored stored found ordered]
  exact ⟨stored, congrArg number (signed_div same.symm _ _)⟩

/-! ## Differences of any size -/

private theorem exists_reads_round {power top : Int} (positive : 0 < mantissa)
    (least : 2 ^ power ≤ magnitude mantissa exponent)
    (most : magnitude mantissa exponent < 2 ^ top)
    (above : format.minExponent + format.mantissaBitsWithoutImplicit ≤ power)
    (bounded : top + format.exponentBias + 1 < 2 ^ format.exponentBits) :
    ∃ value, Reads format (UnpackedFloat.round format sign mantissa exponent) value ∧
      2 ^ power ≤ |value| ∧ |value| ≤ 2 ^ top ∧
      0 ≤ value * signed sign mantissa exponent := by
  have lower : (2 : ℚ) ^ (mantissa.log2 + exponent) ≤ magnitude mantissa exponent := by
    rw [← magnitude_two_pow]
    exact magnitude_mono (Nat.log2_self_le positive.ne') _
  have upper : magnitude mantissa exponent < 2 ^ (mantissa.log2 + exponent + 1) := by
    have next : (mantissa.log2 + exponent + 1 : Int) = (mantissa.log2 + 1 : Nat) + exponent := by
      push_cast
      ring
    have scale : (0 : ℚ) < 2 ^ exponent := by positivity
    rw [next, ← magnitude_two_pow, magnitude, magnitude]
    exact mul_lt_mul_of_pos_right (mod_cast Nat.lt_log2_self) scale
  have atLeast : power ≤ mantissa.log2 + exponent := by
    have := (zpow_lt_zpow_iff_right₀ (one_lt_two : (1 : ℚ) < 2)).1 (least.trans_lt upper)
    omega
  have atMost : mantissa.log2 + exponent + 1 ≤ top := by
    have := (zpow_lt_zpow_iff_right₀ (one_lt_two : (1 : ℚ) < 2)).1 (lower.trans_lt most)
    omega
  obtain ⟨kept, scale, stored, rounds, noLess, noMore⟩ :=
    @exists_round format mantissa exponent positive (by omega) (by omega) sign
  refine ⟨signed sign kept scale, ⟨rounds ▸ stored, by rw [rounds]; rfl⟩, ?_, ?_, ?_⟩
  · rw [abs_signed]
    exact (zpow_le_zpow_right₀ one_le_two atLeast).trans noLess
  · rw [abs_signed]
    exact noMore.trans (zpow_le_zpow_right₀ one_le_two atMost)
  · have product := mul_nonneg (magnitude_nonneg kept scale) (magnitude_nonneg mantissa exponent)
    cases sign with
    | positive => rwa [signed_positive, signed_positive]
    | negative => rwa [signed_negative, signed_negative, neg_mul_neg]

/-- A difference keeps its sign, and is not rounded across a power of two. -/
theorem exists_reads_sub {power top : Int} (leftReads : Reads format left first)
    (rightReads : Reads format right second) (leftSome : first ≠ 0) (rightSome : second ≠ 0)
    (least : 2 ^ power ≤ |first - second|) (most : |first - second| < 2 ^ top)
    (above : format.minExponent + format.mantissaBitsWithoutImplicit ≤ power)
    (bounded : top + format.exponentBias + 1 < 2 ^ format.exponentBits) :
    ∃ value, Reads format (UnpackedFloat.sub format left right) value ∧
      2 ^ power ≤ |value| ∧ |value| ≤ 2 ^ top ∧ 0 ≤ value * (first - second) := by
  rcases leftReads.cases with ⟨leftSign, rfl, rfl⟩ |
    ⟨leftSign, leftMantissa, leftExponent, leftPositive, rfl, leftStored, rfl⟩
  · exact absurd rfl leftSome
  rcases rightReads.cases with ⟨rightSign, rfl, rfl⟩ |
    ⟨rightSign, rightMantissa, rightExponent, rightPositive, rfl, rightStored, rfl⟩
  · exact absurd rfl rightSome
  have same := congrArg₂ (· - ·)
    (signed_decreaseExponent leftSign leftMantissa (min_le_left leftExponent rightExponent))
    (signed_decreaseExponent rightSign rightMantissa (min_le_right leftExponent rightExponent))
  simp only [← sub_mul, ← Int.cast_sub] at same
  rw [← same] at least most ⊢
  have differ : leftSign.apply
        ((decreaseExponent leftMantissa leftExponent (min leftExponent rightExponent)).1 : Int) -
      rightSign.apply
        ((decreaseExponent rightMantissa rightExponent (min leftExponent rightExponent)).1 : Int) ≠
        0 := by
    intro none
    rw [none, Int.cast_zero, zero_mul, abs_zero] at least
    exact absurd least (not_le.2 (by positivity))
  obtain ⟨sign, mantissa, positive, splits, normalizes⟩ :=
    @exists_signed format _ differ .positive
  rw [splits] at least most ⊢
  rw [abs_signed] at least most
  obtain ⟨value, reads, bounds⟩ :=
    @exists_reads_round format sign mantissa _ _ _ positive least most above bounded
  refine ⟨value, ?_, bounds⟩
  rwa [← normalizes] at reads

end Resampler
