import Mathlib.Algebra.Ring.Nat
import Resampler.Kernel
import Resampler.Phase.Speed

/-!
Contract: the laws of positions and steps in units.

Owns:
- sums, differences, and the parts of a position as natural numbers, with the
  word they wrap at;
- how far a kernel moves a position on before it is located;
- the ranges on which the step of a number of units is exact, full, or zero.

Does not own: which positions a voice comes to.
-/

namespace Resampler.Phase

/-! ## Positions -/

theorem toNat_lt (phase : Phase) : phase.toNat < 2 ^ 64 := phase.bits.toNat_lt

@[simp] theorem toNat_ofNat (units : Nat) : (ofNat units).toNat = units % 2 ^ 64 := by
  simp [ofNat, toNat]

@[simp] theorem ofNat_toNat (phase : Phase) : ofNat phase.toNat = phase :=
  ext_toNat ((toNat_ofNat _).trans (Nat.mod_eq_of_lt phase.toNat_lt))

theorem toNat_ofIndex (index : Nat) : (ofIndex index).toNat = index * 2 ^ 32 % 2 ^ 64 :=
  toNat_ofNat _

@[simp] theorem toNat_half : half.toNat = 2 ^ 31 := rfl

theorem toNat_add (left right : Phase) :
    (left + right).toNat = (left.toNat + right.toNat) % 2 ^ 64 :=
  UInt64.toNat_add left.bits right.bits

theorem toNat_add_half (position : Phase) :
    (position + half).toNat = (position.toNat + 2 ^ 31) % 2 ^ 64 :=
  toNat_add ..

theorem toNat_sub (left right : Phase) :
    (left - right).toNat = (2 ^ 64 - right.toNat + left.toNat) % 2 ^ 64 :=
  UInt64.toNat_sub left.bits right.bits

theorem toNat_add_of_lt {left right : Phase} (fits : left.toNat + right.toNat < 2 ^ 64) :
    (left + right).toNat = left.toNat + right.toNat := by
  rw [toNat_add, Nat.mod_eq_of_lt fits]

@[simp] theorem add_zero (phase : Phase) : phase + zero = phase := by
  apply ext_toNat
  rw [toNat_add, toNat_zero, Nat.add_zero, Nat.mod_eq_of_lt phase.toNat_lt]

@[simp] theorem sub_zero (phase : Phase) : phase - zero = phase := by
  apply ext_toNat
  have := phase.toNat_lt
  rw [toNat_sub, toNat_zero]
  omega

/-- Whole samples that a position has behind it are taken off without a borrow. -/
theorem toNat_sub_ofIndex {phase : Phase} {length : Nat}
    (covered : length * 2 ^ 32 ≤ phase.toNat) :
    (phase - ofIndex length).toNat = phase.toNat - length * 2 ^ 32 := by
  have := phase.toNat_lt
  rw [toNat_sub, toNat_ofIndex]
  omega

/-- Part of a sample is added to an index without a carry out of the word. -/
theorem toNat_ofIndex_add {index : Nat} {part : Phase} (inWord : index < 2 ^ 32)
    (short : part.toNat < 2 ^ 32) :
    (ofIndex index + part).toNat = index * 2 ^ 32 + part.toNat := by
  rw [toNat_add, toNat_ofIndex]
  omega

theorem le_index_iff {phase : Phase} {index : Nat} :
    index ≤ phase.index ↔ index * 2 ^ 32 ≤ phase.toNat := by
  unfold Phase.index
  omega

theorem index_lt_iff {phase : Phase} {index : Nat} :
    phase.index < index ↔ phase.toNat < index * 2 ^ 32 := by
  unfold Phase.index
  omega

theorem index_lt (phase : Phase) : phase.index < 2 ^ 32 :=
  Nat.div_lt_of_lt_mul phase.toNat_lt

/-- A sum that does not leave the word is not located before its first part. -/
theorem index_le_index_add {left right : Phase} (fits : left.toNat + right.toNat < 2 ^ 64) :
    left.index ≤ (left + right).index := by
  rw [Phase.index, Phase.index, toNat_add_of_lt fits]
  exact Nat.div_le_div_right (Nat.le_add_right _ _)

theorem fraction_lt (phase : Phase) : phase.fraction < 2 ^ 32 :=
  Nat.mod_lt _ (by decide)

/-- A position is its index in samples and its fraction. -/
theorem toNat_eq_index_add_fraction (phase : Phase) :
    phase.toNat = phase.index * 2 ^ 32 + phase.fraction := by
  rw [Nat.mul_comm]
  exact (Nat.div_add_mod phase.toNat (2 ^ 32)).symm

theorem add_sub_cancel_right (left right : Phase) : left + right - right = left := by
  apply ext_toNat
  rw [toNat_sub, toNat_add]
  have := left.toNat_lt
  have := right.toNat_lt
  omega

theorem sub_add_cancel_right (left right : Phase) : left - right + right = left := by
  apply ext_toNat
  rw [toNat_add, toNat_sub]
  have := left.toNat_lt
  have := right.toNat_lt
  omega

/-- A sum that stays in the word when the same is taken off both sides. -/
theorem toNat_eq_of_toNat_add_eq {left right : Phase} {units : Nat}
    (same : (left + right).toNat = units + right.toNat) : left.toNat = units := by
  have inWord := (left + right).toNat_lt
  have leftInWord := left.toNat_lt
  rw [toNat_add] at same inWord
  omega

/-! ## Steps -/

theorem toNat_ofUnits (units : Nat) :
    (ofUnits units).toNat =
      min (units / 2 ^ 32) (2 ^ 32 - 1) * 2 ^ 32 +
        min (units - min (units / 2 ^ 32) (2 ^ 31 - 1) * 2 ^ 32) (2 ^ 32 - 1) := by
  rw [ofUnits, toNat_ofNat]
  exact Nat.mod_eq_of_lt (by omega)

/-- Below 2 ^ 31 samples the step is the number of units. -/
theorem toNat_ofUnits_of_lt {units : Nat} (inRange : units < 2 ^ 63) :
    (ofUnits units).toNat = units := by
  rw [toNat_ofUnits]
  omega

/-- From 2 ^ 31 samples the fraction is full, whatever it was. -/
theorem toNat_ofUnits_of_le {units : Nat} (large : 2 ^ 63 ≤ units) :
    (ofUnits units).toNat = min (units / 2 ^ 32) (2 ^ 32 - 1) * 2 ^ 32 + (2 ^ 32 - 1) := by
  rw [toNat_ofUnits]
  omega

theorem toNat_ofUnits_of_word_le {units : Nat} (beyondWord : 2 ^ 64 ≤ units) :
    (ofUnits units).toNat = 2 ^ 64 - 1 := by
  rw [toNat_ofUnits]
  omega

/-- More units never make a shorter step. -/
theorem toNat_ofUnits_mono {fewer more : Nat} (ordered : fewer ≤ more) :
    (ofUnits fewer).toNat ≤ (ofUnits more).toNat := by
  by_cases small : more < 2 ^ 63
  · rw [toNat_ofUnits_of_lt small, toNat_ofUnits_of_lt (by omega)]
    exact ordered
  · rw [toNat_ofUnits_of_le (by omega : 2 ^ 63 ≤ more)]
    by_cases smallFewer : fewer < 2 ^ 63
    · rw [toNat_ofUnits_of_lt smallFewer]
      omega
    · rw [toNat_ofUnits_of_le (by omega)]
      omega

end Resampler.Phase

namespace Resampler

/-- A position is moved on by half a sample at most before it is located. -/
theorem Kernel.toNat_shift_le (kernel : Kernel) : kernel.shift.toNat ≤ 2 ^ 31 := by
  cases kernel <;> decide

end Resampler
