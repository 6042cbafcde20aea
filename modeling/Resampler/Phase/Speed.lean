import Resampler.Numeric.Cast
import Resampler.Phase

/-!
Contract: the step that a playback speed makes from one output slot to the next.

Owns:
- the step of a speed, computed in double precision;
- the step of a number of units, the same in exact arithmetic, which stays
  within one word.

Does not own: the sum of a position and its step, which wraps.
-/

namespace Resampler.Phase

/-- The step of a playback speed, where speed one is a sample per slot. The
samples are the speed cut to an unsigned integer. The fraction is what lies
beyond the speed cut to a signed one, in units, and is itself cut. -/
def ofSpeed (speed : Float32) : Phase :=
  let wide := widen speed
  let samples := wide.toUInt32
  let beyond := (wide - ofSigned (cutSigned wide)) * 4294967296
  ⟨samples.toUInt64 <<< 32 ||| beyond.toUInt32.toUInt64⟩

def longest : Phase := ⟨0xFFFFFFFFFFFFFFFF⟩

/-- The step of a number of units. The samples in it are cut off at 32 bits.
The fraction is what lies beyond the whole samples counted in 31 bits, and is
itself cut off at one unit below a sample. -/
def ofUnits (units : Nat) : Phase :=
  let samples := min (units / 4294967296) 4294967295
  let counted := min (units / 4294967296) 2147483647
  let beyond := min (units - counted * 4294967296) 4294967295
  ofNat (samples * 4294967296 + beyond)

end Resampler.Phase
