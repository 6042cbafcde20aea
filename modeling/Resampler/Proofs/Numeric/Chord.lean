import Resampler.Proofs.Numeric.Neutral

/-!
Contract: the straight line between two words, in single precision.

Owns:
- the point of a table row on the line between two integers, counted in 256ths
  of a unit;
- the singles that are a number of 256ths and no larger than a word, which have
  bits to spare;
- the weights of a row, the two products of a weighted sum, and the sum: none of
  them is rounded, however the words are chosen;
- the one single of a number other than zero, and the sign of a weighted zero;
- the weighted sum of equal words, which is that word.

Does not own: which words a slot lies between.
-/

namespace Resampler

open Float.Model Float.Model.UnpackedFloat Reading

/-! ## Points of the line -/

namespace Weights

/-- 256ths of a unit in the point of a row on the line between two integers. -/
def chordParts (row : Fin Phase.rowCount) (first second : Int) : Int :=
  (256 - row.val) * first + row.val * second

def chord (row : Fin Phase.rowCount) (first second : Int) : ℚ :=
  ((256 - row.val) * first + row.val * second) / 256

variable (row : Fin Phase.rowCount) (first second : Int)

theorem chord_eq_chordParts : chord row first second = chordParts row first second / 256 := by
  simp [chord, chordParts]

theorem chordParts_bounds :
    256 * min first second ≤ chordParts row first second ∧
      chordParts row first second ≤ 256 * max first second := by
  have inTable : row.val < 256 := row.isLt
  have near : (0 : Int) ≤ 256 - row.val := by omega
  have far : (0 : Int) ≤ row.val := Int.natCast_nonneg _
  constructor
  · calc 256 * min first second
        = (256 - row.val) * min first second + row.val * min first second := by ring
      _ ≤ chordParts row first second :=
          add_le_add (mul_le_mul_of_nonneg_left (min_le_left _ _) near)
            (mul_le_mul_of_nonneg_left (min_le_right _ _) far)
  · calc chordParts row first second
        ≤ (256 - row.val) * max first second + row.val * max first second :=
          add_le_add (mul_le_mul_of_nonneg_left (le_max_left _ _) near)
            (mul_le_mul_of_nonneg_left (le_max_right _ _) far)
      _ = 256 * max first second := by ring

theorem min_le_chord : ((min first second : Int) : ℚ) ≤ chord row first second := by
  rw [chord_eq_chordParts, le_div_iff₀ (by norm_num), mul_comm]
  exact_mod_cast (chordParts_bounds row first second).1

theorem chord_le_max : chord row first second ≤ ((max first second : Int) : ℚ) := by
  rw [chord_eq_chordParts, div_le_iff₀ (by norm_num), mul_comm]
  exact_mod_cast (chordParts_bounds row first second).2

theorem chord_self : chord row first first = first := by
  rw [chord]
  ring

variable {first second}

theorem abs_chordParts_le (firstShort : |first| ≤ 2 ^ 15) (secondShort : |second| ≤ 2 ^ 15) :
    |chordParts row first second| ≤ 2 ^ 23 := by
  have bounds := chordParts_bounds row first second
  rw [abs_le] at *
  omega

end Weights

/-! ## Numbers of 256ths -/

/-- A single that is a number of 256ths, and no larger than a word. All its bits are among the
24 of a single. -/
structure Graded (single : Float32) (count : Int) : Prop where
  reads : ofSingle single = .number (count / 256)
  bounded : |(count / 256 : ℚ)| ≤ 2 ^ 15
  represents : Represents .binary32 (count / 256)

theorem represents_parts {count : Int} (short : |count| < 2 ^ 24) :
    Represents .binary32 (count / 256) := by
  rw [Int.abs_eq_natAbs] at short
  refine represents_binary32_iff.2 ⟨count.natAbs, -8, ?_, by omega, by decide, by decide⟩
  rw [abs_div, magnitude, Nat.cast_natAbs, Int.cast_abs]
  norm_num [div_eq_mul_inv]

theorem graded_of_reads {single : Float32} {count : Int}
    (reads : Reads .binary32 single.toModel.unpack (count / 256)) (short : |count| ≤ 2 ^ 23) :
    Graded single count := by
  have bounded : |(count : ℚ)| ≤ 2 ^ 23 := by exact_mod_cast short
  refine ⟨reads.reads, ?_, represents_parts (by omega)⟩
  rw [abs_div, div_le_iff₀ (by norm_num)]
  norm_num at bounded ⊢
  exact bounded

theorem Graded.reads_unpack {single : Float32} {count : Int} (graded : Graded single count) :
    Reads .binary32 single.toModel.unpack (count / 256) :=
  reads_ofSingle graded.reads

/-! ## Weighted sums -/

theorem abs_toInt_le (word : Int16) : |word.toInt| ≤ 2 ^ 15 := by
  have least := word.le_toInt
  have most := word.toInt_lt
  rw [abs_le]
  omega

namespace Weights

/-- A weighted sum that is formed without rounding, out of the two weights of a row. -/
structure Exact (row : Fin Phase.rowCount) (first second : Int) (near far : Float32) : Prop where
  row_eq : linearTable.get row = [near, far]
  nearReads : ofSingle near = .number ((256 - row.val) / 256)
  farReads : ofSingle far = .number (row.val / 256)
  sum_eq : weigh (linearTable.get row) [.ofInt first, .ofInt second] =
    near * .ofInt first + far * .ofInt second
  nearPart : Graded (near * .ofInt first) ((256 - row.val) * first)
  farPart : Graded (far * .ofInt second) (row.val * second)
  sum : Graded (near * .ofInt first + far * .ofInt second)
    ((256 - row.val) * first + row.val * second)

variable (row : Fin Phase.rowCount)

theorem reads_far :
    Reads .binary32 (Float32.ofNat row / 256).toModel.unpack ((row.val : Int) / 256) := by
  have inTable : row.val < 256 := row.isLt
  have number : Reads .binary32 (Float32.ofNat row).toModel.unpack (row.val : Int) :=
    @reads_ofInt row.val (by omega)
  have whole : Reads .binary32 (256 : Float32).toModel.unpack 256 :=
    @reads_ofInt 256 (by decide)
  have represents : Represents .binary32 ((row.val : Int) / 256) :=
    represents_parts (by rw [abs_of_nonneg (Int.natCast_nonneg _)]; omega)
  exact (reads_div number whole (by norm_num) represents).unpack_pack

theorem reads_near :
    Reads .binary32 (1 - Float32.ofNat row / 256).toModel.unpack
      ((256 - row.val : Int) / 256) := by
  have inTable : row.val < 256 := row.isLt
  have one : Reads .binary32 (1 : Float32).toModel.unpack 1 := @reads_ofInt 1 (by decide)
  have parts : ((256 - row.val : Int) / 256 : ℚ) = 1 - (row.val : Int) / 256 := by
    push_cast
    ring
  have represents : Represents .binary32 ((256 - row.val : Int) / 256) :=
    represents_parts (by rw [abs_of_nonneg (by omega)]; omega)
  rw [parts] at represents ⊢
  exact (reads_sub one (reads_far row) represents).unpack_pack

variable {first second : Int}

/-- A weight of a row and a word have a product that is not rounded. -/
theorem graded_mul {weight word : Int} {single : Float32}
    (reads : Reads .binary32 single.toModel.unpack (weight / 256)) (short : |word| ≤ 2 ^ 15)
    (bounded : |weight * word| ≤ 2 ^ 23) :
    Graded (single * .ofInt word) (weight * word) := by
  have wordReads : Reads .binary32 (Float32.ofInt word).toModel.unpack word :=
    reads_ofInt (by rw [abs_le] at short; omega)
  have parts : (weight / 256 * word : ℚ) = (weight * word : Int) / 256 := by
    push_cast
    ring
  apply graded_of_reads _ bounded
  rw [← parts]
  refine (reads_mul reads wordReads ?_).unpack_pack
  rw [parts]
  exact represents_parts (by omega)

theorem graded_add {left right : Float32} {count other : Int} (leftGraded : Graded left count)
    (rightGraded : Graded right other) (bounded : |count + other| ≤ 2 ^ 23) :
    Graded (left + right) (count + other) := by
  have parts : (count / 256 + other / 256 : ℚ) = (count + other : Int) / 256 := by
    push_cast
    ring
  apply graded_of_reads _ bounded
  rw [← parts]
  refine (reads_add leftGraded.reads_unpack rightGraded.reads_unpack ?_).unpack_pack
  rw [parts]
  exact represents_parts (by omega)

/-- Between words, no operation of a weighted sum rounds. -/
theorem exists_exact (firstShort : |first| ≤ 2 ^ 15) (secondShort : |second| ≤ 2 ^ 15) :
    ∃ near far, Exact row first second near far := by
  have row_eq : linearTable.get row = [1 - Float32.ofNat row / 256, Float32.ofNat row / 256] :=
    linearTable_get row
  have near := reads_near row
  have far := reads_far row
  have none : |(0 : Int)| ≤ 2 ^ 15 := by decide
  -- Each product is the sum with nothing in place of the other word.
  have nearShort : |(256 - row.val : Int) * first| ≤ 2 ^ 23 := by
    have := abs_chordParts_le row firstShort none
    rwa [chordParts, mul_zero, add_zero] at this
  have farShort : |(row.val : Int) * second| ≤ 2 ^ 23 := by
    have := abs_chordParts_le row none secondShort
    rwa [chordParts, mul_zero, zero_add] at this
  have nearPart := graded_mul near firstShort nearShort
  have farPart := graded_mul far secondShort farShort
  have sum := graded_add nearPart farPart (abs_chordParts_le row firstShort secondShort)
  refine ⟨_, _, row_eq, ?_, ?_, ?_, nearPart, farPart, sum⟩
  · refine near.reads.trans (congrArg number ?_)
    push_cast
    rfl
  · refine far.reads.trans (congrArg number ?_)
    push_cast
    rfl
  · rw [row_eq]
    rfl

variable {row} {near far : Float32}

theorem Exact.ofSingle_weigh (exact : Exact row first second near far) :
    ofSingle (weigh (linearTable.get row) [.ofInt first, .ofInt second]) =
      .number (chord row first second) := by
  rw [exact.sum_eq, exact.sum.reads, chord_eq_chordParts, chordParts]

end Weights

/-! ## Equal words -/

theorem sign_eq_of_signed {leftSign rightSign : Sign} {mantissa : Nat} {exponent : Int}
    (positive : 0 < mantissa)
    (same : signed leftSign mantissa exponent = signed rightSign mantissa exponent) :
    leftSign = rightSign := by
  rw [signed_eq_apply_mul, signed_eq_apply_mul] at same
  have signs : leftSign.apply 1 = rightSign.apply 1 :=
    Int.cast_inj.1 (mul_right_cancel₀ (magnitude_pos positive exponent).ne' same)
  cases leftSign <;> cases rightSign <;> first | rfl | cases signs

/-- There is one single for a number other than zero. -/
theorem eq_of_ofSingle {left right : Float32} {value : ℚ} (some : value ≠ 0)
    (leftReads : ofSingle left = .number value) (rightReads : ofSingle right = .number value) :
    left = right := by
  apply eq_of_unpack
  rcases (reads_ofSingle leftReads).cases with ⟨_, _, none⟩ |
    ⟨leftSign, leftMantissa, leftExponent, leftPositive, leftUnpacked, leftStored, rfl⟩
  · exact absurd none some
  rcases (reads_ofSingle rightReads).cases with ⟨_, _, none⟩ |
    ⟨rightSign, rightMantissa, rightExponent, rightPositive, rightUnpacked, rightStored, same⟩
  · exact absurd none some
  have magnitudes : magnitude leftMantissa leftExponent = magnitude rightMantissa rightExponent := by
    rw [← abs_signed leftSign, same, abs_signed]
  obtain ⟨rfl, rfl⟩ := rightStored.unique leftStored magnitudes
  obtain rfl := sign_eq_of_signed leftPositive same
  rw [leftUnpacked, rightUnpacked]

variable {single : Float32} {value : ℚ}

theorem isZero_mul_zero (reads : ofSingle single = .number value) : IsZero (single * 0) := by
  have none : (0 : Float32).toModel.unpack = .zero .positive := rfl
  rcases (reads_ofSingle reads).cases with ⟨sign, unpacked, _⟩ | ⟨sign, _, _, _, unpacked, _, _⟩ <;>
    refine ⟨sign * .positive, ?_⟩ <;> rw [unpack_mul] <;> rw [unpacked, none]
  · rfl
  · trivial
  · rfl
  · trivial

/-- Above zero, a weight of a zero has no effect on its sign. -/
theorem mul_zero_of_pos (reads : ofSingle single = .number value) (above : 0 < value) :
    single * 0 = 0 := by
  apply eq_of_unpack
  have none : (0 : Float32).toModel.unpack = .zero .positive := rfl
  rcases (reads_ofSingle reads).cases with ⟨_, _, rfl⟩ |
    ⟨sign, mantissa, exponent, positive, unpacked, _, rfl⟩
  · exact absurd above (lt_irrefl 0)
  obtain rfl := positive_of_signed_pos above
  rw [unpack_mul] <;> rw [unpacked, none]
  · rfl
  · trivial

namespace Weights

variable {row : Fin Phase.rowCount} {level : Int}

/-- A weighted sum of one word and the same word is that word, to the bit. -/
theorem weigh_linear_self (short : |level| ≤ 2 ^ 15) :
    weigh (linearTable.get row) [.ofInt level, .ofInt level] = .ofInt level := by
  obtain ⟨near, far, exact⟩ := exists_exact row short short
  by_cases none : level = 0
  · subst none
    have inTable : (row.val : ℚ) < 256 := by exact_mod_cast row.isLt
    have above : (0 : ℚ) < (256 - row.val) / 256 := by linarith
    have zero : Plain 0 := ⟨0, reads_zero .positive, fun _ => rfl⟩
    rw [exact.sum_eq]
    calc near * 0 + far * 0 = 0 + far * 0 := by rw [mul_zero_of_pos exact.nearReads above]
      _ = 0 := zero.add_zero (isZero_mul_zero exact.farReads)
  · have reads : ofSingle (.ofInt level) = .number level :=
      (reads_ofInt (by rw [abs_le] at short; omega)).reads
    apply eq_of_ofSingle (Int.cast_ne_zero.2 none) _ reads
    rw [exact.ofSingle_weigh, chord_self]

end Weights

end Resampler
