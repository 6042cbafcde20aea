import Resampler.Weights.Polynomial
import Resampler.Weights.WindowedSinc

/-!
Contract: the weight rows as tables that are computed once, and their use.

Owns:
- one table for each interpolation, with the row of every quantised fraction;
- the weighted sum of taps in single precision, from left to right.

Does not own: the weights themselves, or the choice of a table.
-/

namespace Resampler.Weights

/-- A row of weights for each quantised fraction. -/
abbrev Table := Vector (List Float32) Phase.rowCount

def linearTable : Table := Vector.ofFn linear

def cubicTable : Table := Vector.ofFn cubic

def sincTable : Table := Vector.ofFn sincRow

/-- The weighted sum of the taps. Each product and each sum is rounded, and
the sums are formed from left to right. -/
def weigh : List Float32 → List Float32 → Float32
  | weight :: weights, tap :: taps =>
      (weights.zip taps).foldl (fun sum pair => sum + pair.1 * pair.2) (weight * tap)
  | _, _ => 0

private theorem get_table (weights : Fin Phase.rowCount → List Float32) (row : Fin Phase.rowCount) :
    (Vector.ofFn weights).get row = weights row := by
  show (Vector.ofFn weights)[row.val] = weights row
  rw [Vector.getElem_ofFn]

theorem linearTable_get (row : Fin Phase.rowCount) : linearTable.get row = linear row :=
  get_table linear row

theorem cubicTable_get (row : Fin Phase.rowCount) : cubicTable.get row = cubic row :=
  get_table cubic row

theorem sincTable_get (row : Fin Phase.rowCount) : sincTable.get row = sincRow row :=
  get_table sincRow row

end Resampler.Weights
