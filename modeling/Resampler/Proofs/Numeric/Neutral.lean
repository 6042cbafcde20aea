import Resampler.Proofs.Numeric.Casts
import Resampler.Proofs.Reference
import Resampler.Weights.Table

/-!
Contract: weights of one and of zero.

Owns:
- singles that stand for numbers and are not the zero below zero;
- a product by one and a sum with a zero, which leave such a single as it is;
- weighted sums in which all weights but one are zeros;
- the samples of a waveform as such singles.

Does not own: which rows of a table have such weights.
-/

namespace Resampler

open Float.Model Float.Model.UnpackedFloat Reading

/-- A single that stands for a number, and is not the zero below zero. -/
def Plain (single : Float32) : Prop :=
  ∃ value, Reads .binary32 single.toModel.unpack value ∧
    (value = 0 → single.toModel.unpack = .zero .positive)

def IsZero (single : Float32) : Prop := ∃ sign, single.toModel.unpack = .zero sign

theorem eq_of_unpack {left right : Float32}
    (same : left.toModel.unpack = right.toModel.unpack) : left = right := by
  obtain ⟨⟨⟨leftBits⟩, leftValid⟩⟩ := left
  obtain ⟨⟨⟨rightBits⟩, rightValid⟩⟩ := right
  obtain rfl : leftBits = rightBits := (unpack_inj_of_valid leftValid rightValid).1 same
  rfl

theorem unpack_mul {left right : Float32}
    (kept : Kept .binary32 (UnpackedFloat.mul .binary32 left.toModel.unpack right.toModel.unpack)) :
    (left * right).toModel.unpack =
      UnpackedFloat.mul .binary32 left.toModel.unpack right.toModel.unpack :=
  unpack_pack_of_kept kept

theorem unpack_add {left right : Float32}
    (kept : Kept .binary32 (UnpackedFloat.add .binary32 left.toModel.unpack right.toModel.unpack)) :
    (left + right).toModel.unpack =
      UnpackedFloat.add .binary32 left.toModel.unpack right.toModel.unpack :=
  unpack_pack_of_kept kept

theorem single_add_comm (left right : Float32) : left + right = right + left := by
  apply congrArg fun sum => (⟨Float32.Model.pack sum⟩ : Float32)
  exact unpacked_add_comm .binary32 _ _

variable {single zero : Float32}

theorem Plain.cases (plain : Plain single) :
    single.toModel.unpack = .zero .positive ∨
      ∃ sign mantissa exponent positive,
        single.toModel.unpack = .finite sign mantissa exponent positive ∧
          Stored .binary32 mantissa exponent := by
  obtain ⟨value, reads, above⟩ := plain
  rcases reads.cases with ⟨sign, unpacked, none⟩ |
    ⟨sign, mantissa, exponent, positive, unpacked, stored, _⟩
  · exact .inl (above none)
  · exact .inr ⟨sign, mantissa, exponent, positive, unpacked, stored⟩

private theorem unpack_one :
    (1 : Float32).toModel.unpack = .finite .positive (2 ^ 23) (-23) (by decide) := rfl

theorem Plain.one_mul (plain : Plain single) : 1 * single = single := by
  apply eq_of_unpack
  rcases plain.cases with unpacked | ⟨sign, mantissa, exponent, positive, unpacked, stored⟩
  · rw [unpack_mul] <;> rw [unpack_one, unpacked]
    · rfl
    · trivial
  · have same : magnitude (2 ^ 23 * mantissa) (-23 + exponent) = magnitude mantissa exponent := by
      have shift : -23 + exponent + (23 : Nat) = exponent := by omega
      rw [Nat.mul_comm, magnitude_mul_two_pow, shift]
    have product : UnpackedFloat.mul .binary32 (1 : Float32).toModel.unpack single.toModel.unpack =
        .finite sign mantissa exponent positive := by
      have signs : Sign.positive * sign = sign := by cases sign <;> rfl
      rw [unpack_one, unpacked, UnpackedFloat.mul, signs]
      exact roundWithAccuracy_of_stored stored same (by omega) sign
    rw [unpack_mul (product ▸ stored), product, unpacked]

theorem Plain.isZero_mul (plain : Plain single) (none : IsZero zero) : IsZero (zero * single) := by
  obtain ⟨zeroSign, none⟩ := none
  rcases plain.cases with unpacked | ⟨sign, mantissa, exponent, positive, unpacked, stored⟩
  · refine ⟨zeroSign * .positive, ?_⟩
    rw [unpack_mul] <;> rw [none, unpacked]
    · rfl
    · trivial
  · refine ⟨zeroSign * sign, ?_⟩
    rw [unpack_mul] <;> rw [none, unpacked]
    · rfl
    · trivial

theorem Plain.add_zero (plain : Plain single) (none : IsZero zero) : single + zero = single := by
  apply eq_of_unpack
  obtain ⟨zeroSign, none⟩ := none
  rcases plain.cases with unpacked | ⟨sign, mantissa, exponent, positive, unpacked, stored⟩
  · rw [unpack_add] <;> rw [unpacked, none]
    · cases zeroSign <;> rfl
    · cases zeroSign <;> trivial
  · rw [unpack_add] <;> rw [unpacked, none]
    · rfl
    · exact stored

theorem Plain.zero_add (plain : Plain single) (none : IsZero zero) : zero + single = single :=
  (single_add_comm zero single).trans (plain.add_zero none)

/-! ## Weighted sums -/

private theorem foldl_zeros (plain : Plain single) {pairs : List (Float32 × Float32)}
    (zeros : ∀ pair ∈ pairs, IsZero pair.1 ∧ Plain pair.2) :
    pairs.foldl (fun sum pair => sum + pair.1 * pair.2) single = single := by
  induction pairs with
  | nil => rfl
  | cons pair pairs inductionHypothesis =>
      obtain ⟨weight, tap⟩ := zeros pair List.mem_cons_self
      rw [List.foldl_cons, plain.add_zero (tap.isZero_mul weight)]
      exact inductionHypothesis fun other member => zeros other (List.mem_cons_of_mem _ member)

variable {weights taps : List Float32}

private theorem zip_zeros (zeros : ∀ weight ∈ weights, IsZero weight)
    (plain : ∀ tap ∈ taps, Plain tap) :
    ∀ pair ∈ weights.zip taps, IsZero pair.1 ∧ Plain pair.2 := fun _ member =>
  ⟨zeros _ (List.of_mem_zip member).1, plain _ (List.of_mem_zip member).2⟩

/-- With the weight one on the first tap, the sum is that tap. -/
theorem weigh_one_cons (plain : Plain single) (zeros : ∀ weight ∈ weights, IsZero weight)
    (others : ∀ tap ∈ taps, Plain tap) :
    Weights.weigh (1 :: weights) (single :: taps) = single := by
  rw [Weights.weigh, plain.one_mul]
  exact foldl_zeros plain (zip_zeros zeros others)

/-- With the weight one on the second tap, the sum is that tap. -/
theorem weigh_zero_one_cons {first : Float32} (none : IsZero zero) (before : Plain first)
    (plain : Plain single) (zeros : ∀ weight ∈ weights, IsZero weight)
    (others : ∀ tap ∈ taps, Plain tap) :
    Weights.weigh (zero :: 1 :: weights) (first :: single :: taps) = single := by
  rw [Weights.weigh, List.zip_cons_cons, List.foldl_cons, plain.one_mul,
    plain.zero_add (before.isZero_mul none)]
  exact foldl_zeros plain (zip_zeros zeros others)

/-! ## Samples -/

private theorem represents_natCast {number : Nat} (short : number < 2 ^ 24) :
    Represents .binary32 number := by
  refine represents_binary32_iff.2 ⟨number, 0, ?_, short, by decide, by decide⟩
  rw [magnitude, zpow_zero, mul_one, abs_of_nonneg (Nat.cast_nonneg _)]

/-- A natural number of 23 bits becomes a single by way of a product with one. -/
private theorem reads_ofNat {number : Nat} (short : number ≤ 2 ^ 23) :
    Reads .binary32 (Float32.ofNat number).toModel.unpack number := by
  have represents : Represents .binary32 number := represents_natCast (by omega)
  rcases Nat.eq_or_lt_of_le short with rfl | shorter
  · have unpacked : (Float32.ofNat (2 ^ 23)).toModel.unpack =
        .finite .positive (2 ^ 23) 0 (by decide) := rfl
    have reads := reads_of_unpack (by decide) unpacked
    norm_num at reads ⊢
    exact reads
  · have product : Float32.ofNat number =
        number.toUInt64.toFloat32 * Float32.exactlyRepresentablePowersOfTen[0] := by
      show Float32.ofScientific number false 0 = _
      rw [Float32.ofScientific, dif_pos ⟨shorter, by decide⟩]
      rfl
    have whole : ((number.toUInt64.toNat : Int) : ℚ) * 2 ^ (0 : Int) = number := by
      have inWord : number.toUInt64.toNat = number :=
        UInt64.toNat_ofNat_of_lt (by show number < 2 ^ 64; omega)
      rw [inWord, zpow_zero, mul_one, Int.cast_natCast]
    have cast : Reads .binary32 number.toUInt64.toFloat32.toModel.unpack number := by
      have reads := @reads_normalize .binary32 0 number.toUInt64.toNat
        (by rw [whole]; exact represents) .positive
      rw [whole] at reads
      exact reads.unpack_pack
    have one : Reads .binary32 Float32.exactlyRepresentablePowersOfTen[0].toModel.unpack 1 := by
      have unpacked : Float32.exactlyRepresentablePowersOfTen[0].toModel.unpack =
          .finite .positive (2 ^ 23) (-23) (by decide) := rfl
      have reads := reads_of_unpack (by decide) unpacked
      norm_num at reads ⊢
      exact reads
    have reads := reads_mul cast one (by rw [mul_one]; exact represents)
    rw [mul_one] at reads
    rw [product]
    exact reads.unpack_pack

theorem reads_ofInt {integer : Int} (short : integer.natAbs ≤ 2 ^ 23) :
    Reads .binary32 (Float32.ofInt integer).toModel.unpack integer := by
  cases integer with
  | ofNat number =>
      rw [Int.ofNat_eq_natCast, Int.cast_natCast]
      exact reads_ofNat short
  | negSucc number =>
      rw [Int.cast_negSucc]
      exact (@reads_ofNat (number + 1) short).neg.unpack_pack

theorem plain_ofInt {integer : Int} (short : integer.natAbs ≤ 2 ^ 23) :
    Plain (.ofInt integer) := by
  refine ⟨integer, reads_ofInt short, ?_⟩
  intro none
  obtain rfl : integer = 0 := mod_cast none
  rfl

theorem SampleData.natAbs_le_of_integer? {data : SampleData} {index : Nat} {integer : Int}
    (found : data.integer? index = some integer) : integer.natAbs ≤ 2 ^ 23 := by
  unfold integer? at found
  split at found
  · obtain ⟨word, _, rfl⟩ := Option.map_eq_some_iff.1 found
    have := word.le_toInt
    have := word.toInt_lt
    omega
  · simp only [Option.bind_eq_bind, Option.bind_eq_some_iff, Option.pure_def,
      Option.some.injEq] at found
    obtain ⟨word, _, byte, _, rfl⟩ := found
    have := word.le_toInt
    have := word.toInt_lt
    have := byte.toNat_lt
    omega

theorem SampleData.plain_sample (data : SampleData) (index : Nat) : Plain (data.sample index) := by
  rw [sample]
  cases found : data.integer? index with
  | none => exact ⟨0, reads_zero .positive, fun _ => rfl⟩
  | some integer => exact plain_ofInt (natAbs_le_of_integer? found)

end Resampler
