import Resampler.Kernel

/-!
Contract: taps that the kernels which truncate positions tell apart.

Owns:
- for the rows of the latter half of a sample, the straight line between two
  ones against that between any other zeros and ones;
- for the same rows, the cubic through a single one against that through two.

Each is checked row by row.

Does not own: the samples behind the taps.
-/

namespace Resampler

namespace Weights

private theorem weigh_linear_ne : ∀ row : Fin Phase.rowCount, 128 ≤ row.val →
    ∀ taps ∈ ([[0, 0], [1, 0], [0, 1]] : List (List Int)),
      weigh (linear row) (taps.map .ofInt) ≠ weigh (linear row) ([1, 1].map .ofInt) := by
  decide +kernel

private theorem weigh_cubic_ne : ∀ row : Fin Phase.rowCount, 128 ≤ row.val →
    weigh (cubic row) ([0, 0, 1, 0].map .ofInt) ≠ weigh (cubic row) ([0, 1, 1, 0].map .ofInt) := by
  decide +kernel

end Weights

namespace Kernel

variable {row : Fin Phase.rowCount}

theorem output_linear_ne (late : 128 ≤ row.val) {taps : List Int}
    (other : taps ∈ [[0, 0], [1, 0], [0, 1]]) :
    linear.output row (taps.map .ofInt) ≠ linear.output row ([1, 1].map .ofInt) := by
  rw [output, output, Weights.linearTable_get]
  exact Weights.weigh_linear_ne row late taps other

theorem output_fourthOrder_ne (late : 128 ≤ row.val) :
    fourthOrder.output row ([0, 0, 1, 0].map .ofInt) ≠
      fourthOrder.output row ([0, 1, 1, 0].map .ofInt) := by
  rw [output, output, Weights.cubicTable_get]
  exact Weights.weigh_cubic_ne row late

end Kernel

end Resampler
