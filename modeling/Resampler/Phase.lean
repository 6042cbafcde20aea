/-!
Contract: play positions in units of 2^-32 sample, held in one 64-bit word.

Owns:
- positions and steps, which are one type, and their wrapping sum and
  difference;
- the parts of a position: sample index, nearest index, fraction, table row;
- the natural number of units as the one view that every law is stated in.

Does not own: how a playback speed becomes a step, or the weights that a table
row selects.
-/

namespace Resampler

/-- A position between stored samples, or a distance between two positions:
the sample index in the upper 32 bits, the part of a sample in the lower 32. -/
structure Phase where
  bits : UInt64
deriving DecidableEq, Repr, Inhabited

namespace Phase

/-- Bits of the fraction that select a table row. -/
def rowBits : Nat := 8

abbrev rowCount : Nat := 256

theorem rowCount_eq : rowCount = 1 <<< rowBits := rfl

/-- The number of units, of which a sample has `2 ^ 32`. -/
def toNat (phase : Phase) : Nat := phase.bits.toNat

def ofNat (units : Nat) : Phase := ⟨UInt64.ofNat units⟩

def ofIndex (index : Nat) : Phase := ofNat (index * 4294967296)

def zero : Phase := ⟨0⟩

def half : Phase := ⟨0x80000000⟩

instance : Add Phase := ⟨fun left right => ⟨left.bits + right.bits⟩⟩

instance : Sub Phase := ⟨fun left right => ⟨left.bits - right.bits⟩⟩

instance : LE Phase := ⟨fun left right => left.bits ≤ right.bits⟩

instance : LT Phase := ⟨fun left right => left.bits < right.bits⟩

instance (left right : Phase) : Decidable (left ≤ right) :=
  inferInstanceAs (Decidable (left.bits ≤ right.bits))

instance (left right : Phase) : Decidable (left < right) :=
  inferInstanceAs (Decidable (left.bits < right.bits))

instance : Ord Phase := ⟨fun left right => compare left.bits right.bits⟩

/-- The index of the sample at or before the position. -/
def index (phase : Phase) : Nat := phase.toNat / 4294967296

def fraction (phase : Phase) : Nat := phase.toNat % 4294967296

/-- The index of the sample nearest to the position, the later one halfway. -/
def nearestIndex (phase : Phase) : Nat := (phase + half).index

/-- The table row of the fraction. The fraction is cut, never rounded. -/
def row (phase : Phase) : Fin rowCount :=
  ⟨phase.fraction / 16777216, by
    have inSample : phase.fraction < 4294967296 := Nat.mod_lt _ (by decide)
    exact Nat.div_lt_of_lt_mul inSample⟩

def toFloat (phase : Phase) : Float := phase.bits.toFloat / 4294967296.0

theorem ext_toNat {left right : Phase} (same : left.toNat = right.toNat) : left = right := by
  cases left
  cases right
  exact congrArg Phase.mk (UInt64.toNat_inj.1 same)

@[simp] theorem toNat_zero : zero.toNat = 0 := rfl

theorem le_iff_toNat_le {left right : Phase} : left ≤ right ↔ left.toNat ≤ right.toNat :=
  UInt64.le_iff_toNat_le

theorem lt_iff_toNat_lt {left right : Phase} : left < right ↔ left.toNat < right.toNat :=
  UInt64.lt_iff_toNat_lt

end Phase

end Resampler
