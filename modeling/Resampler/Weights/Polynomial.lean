import Resampler.Phase
import Resampler.Numeric.Narrow

/-!
Contract: tap weights of the two polynomial interpolations, one row for each
quantised fraction.

Owns:
- the straight line between the sample at the position and the next;
- the cubic through the sample before the position and the three after it,
  whose slope at a sample is half the difference of the sample's neighbours.

Does not own: which samples stand behind the taps.
-/

namespace Resampler.Weights

/-- Weights of the sample at the position and the next one. Both are exact. -/
def linear (row : Fin Phase.rowCount) : List Float32 :=
  let x := Float32.ofNat row / 256
  [1 - x, x]

/-- Weights of the sample before the position, the one at it, and the next
two, computed in double precision and rounded once. -/
def cubic (row : Fin Phase.rowCount) : List Float32 :=
  let x := Float.ofNat row / 256.0
  [ x * (-0.5 + x * (1.0 - 0.5 * x)),
    1.0 + x * x * (1.5 * x - 2.5),
    x * (0.5 + x * (2.0 - 1.5 * x)),
    0.5 * x * x * (x - 1.0) ].map narrow

end Resampler.Weights
