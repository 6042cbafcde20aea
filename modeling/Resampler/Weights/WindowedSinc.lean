import Resampler.Phase
import Resampler.Numeric.Circular
import Resampler.Numeric.Narrow

/-!
Contract: tap weights of the seven-point interpolation, one row for each
quantised fraction of a position that was moved on by half a sample.

Owns:
- the sinc function under a raised cosine window seven samples wide;
- the order of the rows: the later the row, the further back every tap lies;
- the division by the sum, after which a row has unit gain.

Does not own: the half-sample move of the position, or the samples behind the
taps.
-/

namespace Resampler.Weights

abbrev sincTaps : Nat := 7

def circleConstant : Float := 3.141592653589793

/-- Where a tap lies from the position, in samples, `step` rows from the last. -/
def sincOffset (tap step : Nat) : Float :=
  Float.ofNat tap - 3.5 + Float.ofNat step / 256.0

def windowedSinc (offset : Float) : Float :=
  if offset.abs > 0.000001 then
    let angle := circleConstant * offset
    let window := 0.5 * (1.0 + Circular.cosine (2.0 * angle / 7.0))
    Circular.sine angle / angle * window
  else
    1.0

def rawSincRow (row : Fin Phase.rowCount) : List Float :=
  (List.range sincTaps).map fun tap => windowedSinc (sincOffset tap (255 - row))

/-- Weights of the three samples before the position, the one at it, and the
three after it. -/
def sincRow (row : Fin Phase.rowCount) : List Float32 :=
  let raw := rawSincRow row
  let total := raw.foldl (· + ·) 0.0
  raw.map fun weight => narrow (weight / total)

end Resampler.Weights
