import Resampler.Phase.Speed
import Resampler.Proofs.Units
import Resampler.Proofs.Numeric.Casts

/-!
Contract: the step of every playback speed.

Owns:
- the units that a reading asks for, cut and kept within the word;
- the step of every single as those units, and the speeds at which it has a
  full fraction instead.

Does not own: what a step does to a position.
-/

namespace Resampler

open Reading

/-! ## The double beyond the whole samples -/

/-- What lies beyond the counted samples is a double, because a single has too few bits for a
part of a sample where the count is limited. -/
private theorem represents_sub_counted {value : ℚ} (represents : Represents .binary32 value)
    (nonneg : 0 ≤ value) (near : value < 2 ^ 32) {limit : Nat} (most : 2 ^ 24 ≤ limit) :
    Represents .binary64 (value - (min ⌊value⌋₊ limit : Nat)) := by
  obtain ⟨mantissa, exponent, same, fits, above, below⟩ := represents_binary32_iff.1 represents
  rw [abs_of_nonneg nonneg] at same
  subst same
  rcases Int.le_total 0 exponent with up | down
  · obtain ⟨power, rfl⟩ := Int.eq_ofNat_of_zero_le up
    rw [magnitude_natCast] at near ⊢
    rw [Nat.floor_natCast]
    generalize mantissa * 2 ^ power = samples at near ⊢
    have short : samples < 2 ^ 32 := mod_cast near
    have integer : ((samples : ℚ) - (min samples limit : Nat)) =
        ((samples - (min samples limit : Nat) : Int) : ℚ) := by
      push_cast
      ring
    rw [integer]
    exact represents_integer (by omega)
  · have floor := floor_magnitude mantissa exponent
    obtain ⟨power, negated⟩ := Int.eq_ofNat_of_zero_le (Int.neg_nonneg_of_nonpos down)
    obtain rfl : exponent = -power := by omega
    have none : (-(power : Int)).toNat = 0 := by omega
    rw [none, Int.neg_neg, Int.toNat_natCast, Nat.pow_zero, Nat.mul_one] at floor
    have few : mantissa / 2 ^ power < 2 ^ 24 := (Nat.div_le_self _ _).trans_lt fits
    have part : magnitude mantissa (-power) - (min (mantissa / 2 ^ power) limit : Nat) =
        magnitude (mantissa % 2 ^ power) (-power) := by
      have split : (mantissa : ℚ) =
          (mantissa / 2 ^ power : Nat) * 2 ^ power + (mantissa % 2 ^ power : Nat) := by
        exact_mod_cast (Nat.div_add_mod' mantissa (2 ^ power)).symm
      have unit : (2 : ℚ) ^ power * 2 ^ (-power : Int) = 1 := by
        rw [zpow_neg, zpow_natCast]
        exact mul_inv_cancel₀ (by positivity)
      rw [Nat.min_eq_left (by omega), magnitude, magnitude]
      conv_lhs => rw [split]
      rw [add_mul, mul_assoc, unit]
      ring
    rw [floor, part]
    have rest : mantissa % 2 ^ power < 2 ^ 24 := (Nat.mod_le _ _).trans_lt fits
    refine represents_binary64_iff.2 ⟨_, _, abs_of_nonneg (magnitude_nonneg _ _), ?_, ?_, ?_⟩ <;>
      omega

/-- From 2 ^ 24 on a single is a whole number. -/
theorem Represents.exists_natCast {value : ℚ} (represents : Represents .binary32 value)
    (large : 2 ^ 24 ≤ value) : ∃ whole : Nat, value = whole := by
  obtain ⟨mantissa, exponent, same, fits, above, below⟩ := represents_binary32_iff.1 represents
  rw [abs_of_nonneg (by linarith)] at same
  rcases Int.le_total 0 exponent with up | down
  · obtain ⟨power, rfl⟩ := Int.eq_ofNat_of_zero_le up
    exact ⟨_, same.trans (magnitude_natCast mantissa power)⟩
  · have small : magnitude mantissa exponent ≤ mantissa :=
      mul_le_of_le_one_right (Nat.cast_nonneg _) (zpow_le_one_of_nonpos₀ one_le_two down)
    have few : (mantissa : ℚ) < 2 ^ 24 := mod_cast fits
    linarith

/-- The greatest single below 2 ^ 31. -/
theorem Represents.le_of_lt_two_pow {value : ℚ} (represents : Represents .binary32 value)
    (small : value < 2 ^ 31) : value ≤ 2 ^ 31 - 2 ^ 7 := by
  obtain ⟨mantissa, exponent, same, fits, above, below⟩ := represents_binary32_iff.1 represents
  rcases lt_or_ge value 0 with negative | nonneg
  · linarith
  rw [abs_of_nonneg nonneg] at same
  rcases Int.le_total exponent 7 with low | high
  · have few : (mantissa : ℚ) ≤ 2 ^ 24 - 1 := by
      rw [le_sub_iff_add_le]
      exact_mod_cast fits
    have scale : (2 : ℚ) ^ exponent ≤ 2 ^ (7 : Int) := zpow_le_zpow_right₀ one_le_two low
    calc value = mantissa * 2 ^ exponent := same
      _ ≤ (2 ^ 24 - 1) * 2 ^ (7 : Int) := by gcongr
      _ = 2 ^ 31 - 2 ^ 7 := by norm_num
  · obtain ⟨power, rfl⟩ : ∃ power : Nat, exponent = (power + 7 : Nat) :=
      ⟨(exponent - 7).toNat, by omega⟩
    rw [magnitude_natCast] at same
    rw [same] at small ⊢
    have small : mantissa * 2 ^ (power + 7) < 2 ^ 31 := mod_cast small
    have fewer : mantissa * 2 ^ (power + 7) + 2 ^ 7 ≤ 2 ^ 31 := by
      rw [Nat.pow_add, ← Nat.mul_assoc] at small ⊢
      omega
    rw [le_sub_iff_add_le]
    exact_mod_cast fewer

private theorem min_floor_le {value : ℚ} (nonneg : 0 ≤ value) (limit : Nat) :
    ((min ⌊value⌋₊ limit : Nat) : ℚ) ≤ value :=
  (Nat.cast_le.2 (min_le_left _ _)).trans (Nat.floor_le nonneg)

private theorem min_floor_eq {value : ℚ} {limit : Nat} (far : limit ≤ value) :
    min ⌊value⌋₊ limit = limit :=
  min_eq_right (Nat.le_floor far)

section Beyond

variable {speed : Float32} {value : ℚ}

/-- On one side of zero, the shorter number is taken off the size of the longer one. -/
private theorem abs_sub_of_along {first second : ℚ} (along : 0 ≤ first * second)
    (shorter : |second| ≤ |first|) : |first - second| = |first| - |second| := by
  rcases mul_nonneg_iff.1 along with ⟨firstSide, secondSide⟩ | ⟨firstSide, secondSide⟩
  · rw [abs_of_nonneg firstSide, abs_of_nonneg secondSide] at shorter ⊢
    exact abs_of_nonneg (sub_nonneg.2 shorter)
  · rw [abs_of_nonpos firstSide, abs_of_nonpos secondSide] at shorter ⊢
    rw [abs_of_nonpos (by linarith)]
    ring

/-- The samples counted with a sign are cut towards zero, and limited on either side. -/
private theorem exists_counted (reads : ofSingle speed = .number value) :
    ∃ limit : Nat, (2 ^ 31 ≤ limit + 1 ∧ limit ≤ 2 ^ 31) ∧
      |((cutSigned (widen speed)).toInt : ℚ)| = (min ⌊|value|⌋₊ limit : Nat) ∧
        0 ≤ value * (cutSigned (widen speed)).toInt := by
  rw [toInt_cutSigned ((ofDouble_widen speed).trans reads)]
  rcases le_or_gt 0 value with nonneg | below
  · rw [if_pos nonneg, abs_of_nonneg nonneg, Int.cast_natCast]
    exact ⟨_, by decide, Nat.abs_cast _, mul_nonneg nonneg (Nat.cast_nonneg _)⟩
  · rw [if_neg below.not_ge, abs_of_neg below, Int.cast_neg, Int.cast_natCast, abs_neg, mul_neg,
      ← neg_mul]
    exact ⟨_, by decide, Nat.abs_cast _,
      mul_nonneg (neg_nonneg.2 below.le) (Nat.cast_nonneg _)⟩

/-- The part of a speed that is left when the samples counted in 31 bits are taken off. It is exact
for the speeds that have a fraction, and large for those that a word does not hold. -/
private theorem exists_beyond (reads : ofSingle speed = .number value) :
    ∃ beyond, ofDouble (widen speed - ofSigned (cutSigned (widen speed))) = .number beyond ∧
      |beyond| ≤ 2 ^ 129 ∧ 0 ≤ value * beyond ∧ (2 ^ 32 ≤ |value| → 2 ^ 31 ≤ |beyond|) ∧
        (|value| < 2 ^ 32 → beyond = value - (cutSigned (widen speed)).toInt) := by
  have wide : ofDouble (widen speed) = .number value := (ofDouble_widen speed).trans reads
  have represents := represents_ofSingle reads
  have counted := ofDouble_ofSigned (cutSigned (widen speed))
  obtain ⟨limit, ⟨least, most⟩, size, along⟩ := exists_counted reads
  generalize ((cutSigned (widen speed)).toInt : ℚ) = taken at counted size along ⊢
  have shorter : |taken| ≤ |value| := size ▸ min_floor_le (abs_nonneg value) limit
  have rest := abs_sub_of_along along shorter
  have onward : 0 ≤ value * (value - taken) := by
    have inside := mul_le_mul_of_nonneg_left shorter (abs_nonneg value)
    rw [← abs_mul, abs_of_nonneg along, abs_mul_abs_self] at inside
    linarith
  rcases lt_or_ge |value| (2 ^ 32) with near | far
  · have represented : Represents .binary64 (value - taken) := by
      rw [← represents_abs_iff, rest, size]
      exact represents_sub_counted (represents_abs_iff.2 represents) (abs_nonneg value) near
        (by omega)
    refine ⟨_, ofDouble_sub wide counted represented, ?_, onward,
      fun far => absurd near far.not_gt, fun _ => rfl⟩
    have none := abs_nonneg taken
    linarith
  · have finite := represents.abs_lt
    have atLeast : (2 ^ 31 : ℚ) ≤ limit + 1 := by exact_mod_cast least
    have atMost : (limit : ℚ) ≤ 2 ^ 31 := by exact_mod_cast most
    rw [min_floor_eq (by linarith)] at size
    have apart : (2 : ℚ) ^ (31 : Int) ≤ |value - taken| := by
      rw [rest, size, zpow_ofNat]
      linarith
    have bounded : |value - taken| < (2 : ℚ) ^ (128 : Int) := by
      rw [rest, size, zpow_ofNat]
      linarith
    have some : value ≠ 0 := abs_pos.1 (by linarith)
    have takenSome : taken ≠ 0 := abs_pos.1 (by linarith)
    obtain ⟨beyond, reads, least, most, same⟩ := exists_ofDouble_sub wide counted some takenSome
      apart bounded (by decide) (by decide)
    rw [zpow_ofNat] at least most
    refine ⟨beyond, reads, by linarith, ?_, fun _ => least, fun near => absurd near far.not_gt⟩
    -- The difference lies on the side of the value, and what is left of it lies on its own.
    have differ : value - taken ≠ 0 := abs_pos.1 (lt_of_lt_of_le (by positivity) apart)
    have sides := mul_nonneg onward same
    rw [mul_mul_mul_comm] at sides
    exact nonneg_of_mul_nonneg_left sides (mul_self_pos.2 differ)

end Beyond

/-! ## The step -/

namespace Phase

private theorem toNat_joined (samples part : UInt32) :
    (⟨samples.toUInt64 <<< 32 ||| part.toUInt64⟩ : Phase).toNat =
      samples.toNat * 2 ^ 32 + part.toNat := by
  have samplesFit := samples.toNat_lt
  have partFits := part.toNat_lt
  have shifted : (samples.toUInt64 <<< 32).toNat = samples.toNat <<< 32 := by
    rw [UInt64.toNat_shiftLeft, UInt32.toNat_toUInt64, Nat.mod_eq_of_lt]
    · rfl
    · rw [Nat.shiftLeft_eq]
      show samples.toNat * 2 ^ 32 < 2 ^ 64
      omega
  rw [toNat, UInt64.toNat_or, shifted, UInt32.toNat_toUInt64,
    ← Nat.shiftLeft_add_eq_or_of_lt partFits, Nat.shiftLeft_eq]

variable {speed : Float32}

/-- The double computation makes the step of the exact number of units. -/
theorem ofSpeed_of_number {value : ℚ} (reads : ofSingle speed = .number value) :
    ofSpeed speed = ofUnits ⌊value * 2 ^ 32⌋₊ := by
  have wide : ofDouble (widen speed) = .number value := (ofDouble_widen speed).trans reads
  apply ext_toNat
  rw [ofSpeed, toNat_joined, toNat_ofUnits, toNat_toUInt32 wide]
  obtain ⟨beyond, left, size, side, far, near⟩ := exists_beyond reads
  rw [toNat_toUInt32 (ofDouble_mul_word left size)]
  rcases lt_or_ge value 0 with below | nonneg
  · have nonpos : beyond ≤ 0 :=
      not_lt.1 fun above => absurd side (not_le.2 (mul_neg_of_neg_of_pos below above))
    rw [Nat.floor_of_nonpos below.le, Nat.floor_of_nonpos (by linarith),
      Nat.floor_of_nonpos (by linarith)]
    rfl
  · have word : value * 2 ^ 32 / (2 ^ 32 : Nat) = value := by
      push_cast
      exact mul_div_cancel_right₀ _ (by norm_num)
    have samples : ⌊value * 2 ^ 32⌋₊ / 2 ^ 32 = ⌊value⌋₊ := by
      rw [← Nat.floor_div_natCast, word]
    rw [abs_of_nonneg nonneg] at far near
    rw [samples]
    rcases lt_or_ge value (2 ^ 32) with inRange | beyondWord
    · have part : ⌊beyond * 2 ^ 32⌋₊ =
          ⌊value * 2 ^ 32⌋₊ - min ⌊value⌋₊ (2 ^ 31 - 1) * 2 ^ 32 := by
        rw [near inRange, toInt_cutSigned wide, if_pos nonneg, Int.cast_natCast,
          ← Nat.floor_sub_natCast, sub_mul]
        push_cast
        rfl
      rw [part]
    · have many : 2 ^ 32 ≤ ⌊value⌋₊ := Nat.le_floor (mod_cast beyondWord)
      have positive : 0 < value := by linarith
      have least := far beyondWord
      rw [abs_of_nonneg (nonneg_of_mul_nonneg_right side positive)] at least
      have full : 2 ^ 63 ≤ ⌊beyond * 2 ^ 32⌋₊ := by
        apply Nat.le_floor
        push_cast
        linarith
      omega

def ofInfinite : Float.Model.UnpackedFloat.Sign → Phase
  | .positive => longest
  | .negative => zero

theorem ofSpeed_of_infinite {sign : Float.Model.UnpackedFloat.Sign}
    (reads : ofSingle speed = .infinite sign) : ofSpeed speed = ofInfinite sign := by
  rw [ofSpeed, widen, unpack_of_infinite reads]
  cases sign <;> rfl

theorem ofSpeed_of_notANumber (reads : ofSingle speed = .notANumber) : ofSpeed speed = zero := by
  rw [ofSpeed, widen, unpack_of_notANumber reads]
  rfl

/-- A step of less than 2 ^ 31 samples is less by more than a few samples. -/
theorem toNat_ofSpeed_le_of_lt (small : (ofSpeed speed).toNat < 2 ^ 63) :
    (ofSpeed speed).toNat ≤ 2 ^ 63 - 2 ^ 39 := by
  rcases reads : ofSingle speed with value | sign | _
  · rw [ofSpeed_of_number reads] at small ⊢
    have units : ⌊value * 2 ^ 32⌋₊ < 2 ^ 63 := by
      by_contra large
      rw [toNat_ofUnits_of_le (Nat.not_lt.1 large)] at small
      omega
    rw [toNat_ofUnits_of_lt units]
    have below : value < 2 ^ 31 := by
      have := (Nat.floor_lt' (by decide)).1 units
      push_cast at this
      linarith
    have most := (represents_ofSingle reads).le_of_lt_two_pow below
    apply Nat.floor_le_of_le
    push_cast
    linarith
  · rw [ofSpeed_of_infinite reads] at small ⊢
    cases sign with
    | positive => exact absurd small (by decide)
    | negative => exact Nat.zero_le _
  · rw [ofSpeed_of_notANumber reads]
    exact Nat.zero_le _

private theorem ofSingle_two_pow : ofSingle 2147483648 = .number (2 ^ 31) := by
  have unpacked : (2147483648 : Float32).toModel.unpack =
      .finite .positive (2 ^ 23) 8 (by decide) := rfl
  rw [ofSingle_of_unpack unpacked]
  norm_num

/-- Every speed that is not 2 ^ 31 or more makes such a step. -/
theorem toNat_ofSpeed_lt_of_not_le (slow : ¬(2147483648 : Float32) ≤ speed) :
    (ofSpeed speed).toNat < 2 ^ 63 := by
  rcases reads : ofSingle speed with value | sign | _
  · have below : value < 2 ^ 31 := by
      by_contra large
      exact slow (le_of_ofSingle ofSingle_two_pow reads (by norm_num) (not_lt.1 large))
    have units : ⌊value * 2 ^ 32⌋₊ < 2 ^ 63 := by
      apply (Nat.floor_lt' (by decide)).2
      push_cast
      linarith
    rwa [ofSpeed_of_number reads, toNat_ofUnits_of_lt units]
  · rw [ofSpeed_of_infinite reads]
    cases sign with
    | positive => exact absurd (le_of_infinite ofSingle_two_pow reads) slow
    | negative => decide
  · rw [ofSpeed_of_notANumber reads]
    decide

/-- A greater speed never makes a shorter step. -/
theorem ofSpeed_le_ofSpeed {slower faster : Float32} (ordered : slower ≤ faster) :
    ofSpeed slower ≤ ofSpeed faster := by
  rw [le_iff_toNat_le]
  rcases ofSingle_of_le ordered with ⟨less, more, slowerReads, fasterReads, lessMore⟩ |
    backward | endless
  · rw [ofSpeed_of_number slowerReads, ofSpeed_of_number fasterReads]
    exact toNat_ofUnits_mono (Nat.floor_mono (by gcongr))
  · rw [ofSpeed_of_infinite backward]
    exact Nat.zero_le _
  · have most : (ofInfinite .positive).toNat = 2 ^ 64 - 1 := rfl
    rw [ofSpeed_of_infinite endless, most]
    have := (ofSpeed slower).toNat_lt
    omega

end Phase

/-- The units of a speed when it is cut: none for a speed below zero, and the last unit of the
word for a speed that a word does not hold. -/
def Reading.units : Reading → Nat
  | .number value =>
      if value < 0 then 0
      else if value < 2 ^ 32 then ⌊value * 2 ^ 32⌋₊
      else 2 ^ 64 - 1
  | .infinite .positive => 2 ^ 64 - 1
  | .infinite .negative => 0
  | .notANumber => 0

/-- A speed whose samples fit in 32 bits without a sign, but not in 32 bits with one. -/
def Reading.Unsigned : Reading → Prop
  | .number value => 2 ^ 31 ≤ value ∧ value < 2 ^ 32
  | _ => False

instance (reading : Reading) : Decidable reading.Unsigned :=
  match reading with
  | .number value => inferInstanceAs (Decidable (2 ^ 31 ≤ value ∧ value < 2 ^ 32))
  | .infinite _ => inferInstanceAs (Decidable False)
  | .notANumber => inferInstanceAs (Decidable False)

namespace Phase

/-- The step of a speed is the units of it, cut. Only where the samples need the bit that a signed
integer has for its sign does it have a full fraction on top: the samples are then cut as an unsigned
integer, and the fraction is taken from what lies beyond the greatest signed one. -/
theorem toNat_ofSpeed (speed : Float32) :
    (ofSpeed speed).toNat =
      (ofSingle speed).units + if (ofSingle speed).Unsigned then 2 ^ 32 - 1 else 0 := by
  rcases reads : ofSingle speed with value | sign | _
  · rw [ofSpeed_of_number reads]
    rw [Reading.units]
    rcases lt_or_ge value 0 with below | nonneg
    · rw [if_pos below, if_neg (by rintro ⟨above, _⟩; linarith),
        Nat.floor_of_nonpos (by linarith)]
      rfl
    rw [if_neg (not_lt.2 nonneg)]
    rcases lt_or_ge value (2 ^ 31) with small | large
    · have inRange : ⌊value * 2 ^ 32⌋₊ < 2 ^ 63 :=
        (Nat.floor_lt (by positivity)).2 (by push_cast; linarith)
      rw [if_pos (by linarith), if_neg (by rintro ⟨above, _⟩; linarith),
        toNat_ofUnits_of_lt inRange]
      rfl
    rcases lt_or_ge value (2 ^ 32) with inWord | beyondWord
    · obtain ⟨whole, rfl⟩ := (represents_ofSingle reads).exists_natCast (by linarith)
      have units : ⌊(whole * 2 ^ 32 : ℚ)⌋₊ = whole * 2 ^ 32 :=
        mod_cast Nat.floor_natCast (R := ℚ) (whole * 2 ^ 32)
      have atLeast : 2 ^ 31 ≤ whole := mod_cast large
      have below : whole < 2 ^ 32 := mod_cast inWord
      rw [if_pos inWord, if_pos ⟨large, inWord⟩, units, toNat_ofUnits_of_le (by omega)]
      omega
    · have beyond : 2 ^ 64 ≤ ⌊value * 2 ^ 32⌋₊ := Nat.le_floor (by push_cast; linarith)
      rw [if_neg (not_lt.2 beyondWord), if_neg (by rintro ⟨_, inWord⟩; linarith),
        toNat_ofUnits_of_word_le beyond, Nat.add_zero]
  · rw [ofSpeed_of_infinite reads]
    cases sign <;> rfl
  · rw [ofSpeed_of_notANumber reads]
    rfl

/-- At speed 2 ^ 31 the fraction is not the one that is cut, which is none. -/
theorem not_toNat_ofSpeed_eq_units :
    ¬∀ speed, (ofSpeed speed).toNat = (ofSingle speed).units := by
  intro cut
  have full : (ofSpeed 2147483648).toNat = 2 ^ 63 + (2 ^ 32 - 1) := by decide +kernel
  have units : (ofSingle 2147483648).units = 2 ^ 63 := by
    have whole : ⌊(2 ^ 31 * 2 ^ 32 : ℚ)⌋₊ = 2 ^ 63 := by norm_num
    rw [ofSingle_two_pow, Reading.units, if_neg (by norm_num), if_pos (by norm_num), whole]
  have same := full.symm.trans ((cut _).trans units)
  omega

end Phase

end Resampler
