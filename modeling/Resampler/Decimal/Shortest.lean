/-!
Contract: the decimal with the fewest digits that identifies a single.

Owns:
- the reals that round to a positive single, as an interval with exact ends;
- the search of decimal grids, from coarse to fine, for a point of it.

Of two points of the first grid that has any, the nearer to the single is
taken, and of two equally near the larger.

Does not own: how the digits are laid out as text.
-/

namespace Resampler.Decimal

open Float.Model

/-- A decimal `digits * 10 ^ exponent`. -/
structure Shortest where
  digits : Nat
  exponent : Int
deriving DecidableEq, Repr

/-- The reals that round to `mantissa * 2 ^ exponent`, in units of
`2 ^ (exponent - 2)`, a quarter of the distance to the next single. -/
structure RoundingInterval where
  mantissa : Nat
  exponent : Int
deriving DecidableEq, Repr

namespace RoundingInterval

def centre (interval : RoundingInterval) : Nat := 4 * interval.mantissa

def upper (interval : RoundingInterval) : Nat := interval.centre + 2

/-- Halfway to the next single below, which is half as far where the exponent
drops, at the mantissa `2 ^ 23`. -/
def lower (interval : RoundingInterval) : Nat :=
  if interval.mantissa = 8388608 ∧ -149 < interval.exponent then interval.centre - 1
  else interval.centre - 2

/-- The ends round to an even mantissa. -/
def closed (interval : RoundingInterval) : Bool := interval.mantissa % 2 == 0

/-- Two integers in the ratio of a quarter unit to a power of ten, so that
multiples of the two can be compared. -/
def scales (interval : RoundingInterval) (exponent : Int) : Nat × Nat :=
  let quarter := interval.exponent - 2
  (Nat.pow 10 (-exponent).toNat <<< quarter.toNat, Nat.pow 10 exponent.toNat <<< (-quarter).toNat)

def contains (interval : RoundingInterval) (candidate : Shortest) : Bool :=
  let (quarter, ten) := interval.scales candidate.exponent
  let value := candidate.digits * ten
  if interval.closed then
    interval.lower * quarter ≤ value && value ≤ interval.upper * quarter
  else
    interval.lower * quarter < value && value < interval.upper * quarter

/-- The point of a grid of multiples of a power of ten that rounds to the
single: the nearer of its two neighbours there, the larger if both are. -/
def onGrid? (interval : RoundingInterval) (exponent : Int) : Option Shortest :=
  let (quarter, ten) := interval.scales exponent
  let below : Shortest := ⟨interval.centre * quarter / ten, exponent⟩
  let above : Shortest := ⟨below.digits + 1, exponent⟩
  match interval.contains below, interval.contains above with
  | true, true =>
      if 2 * (interval.centre * quarter) < (below.digits + above.digits) * ten then some below
      else some above
  | true, false => some below
  | false, true => some above
  | false, false => none

/-- The first grid with such a point, from a power of ten down. The finest
grid that is tried answers with its point below the single. -/
def search (interval : RoundingInterval) : (grids : Nat) → (exponent : Int) → Shortest
  | 0, exponent =>
      let (quarter, ten) := interval.scales exponent
      ⟨interval.centre * quarter / ten, exponent⟩
  | grids + 1, exponent =>
      match interval.onGrid? exponent with
      | some point => point
      | none => interval.search grids (exponent - 1)

/-- The fewest digits. Singles are below `10 ^ 39`, and nine digits identify
the least of them, which is above `10 ^ (-46)`. -/
def shortest (interval : RoundingInterval) : Shortest := interval.search 94 39

/-- What the search of one grid returns rounds to the single. -/
theorem contains_of_onGrid? {interval : RoundingInterval} {exponent : Int} {point : Shortest}
    (found : interval.onGrid? exponent = some point) : interval.contains point = true := by
  simp only [onGrid?] at found
  split at found
  · split at found <;> cases found <;> assumption
  · cases found
    assumption
  · cases found
    assumption
  · cases found

end RoundingInterval

end Resampler.Decimal
