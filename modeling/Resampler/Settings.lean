import Resampler.Method

/-!
Contract: what can be set on a voice while it plays.

Owns: the interpolation method and the playback speed, with their defaults.

Does not own: the step that a speed makes.
-/

namespace Resampler

/-- The adjustable part of a voice. Speed one plays a waveform at the rate at
which it was recorded. -/
structure Settings where
  method : Method := .fourthOrder
  speed : Float32 := 1.0
deriving DecidableEq

instance : Inhabited Settings := ⟨{}⟩

end Resampler
