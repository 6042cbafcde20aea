import Resampler.Notice
import Resampler.Phase.Speed
import Resampler.SampleData

/-!
Contract: the state of one voice between two blocks.

Owns:
- the position, the loop history, and the settings of a voice;
- how a voice is made, set, and started again;
- the check of its bounds for given data.

Does not own: how a voice moves while it is rendered.
-/

namespace Resampler

/-- A voice on its way through a waveform. `looped` tells whether it has turned
back at the end of the loop since it was started. -/
structure Voice where
  position : Phase
  speed : Float32
  looped : Bool
  bounds : Bounds
  method : Method
deriving DecidableEq

namespace Voice

def make (bounds : Bounds) (settings : Settings) : Voice where
  position := .ofIndex bounds.start.toNat
  speed := settings.speed
  looped := false
  bounds := bounds
  method := settings.method

def announce (bounds : Bounds) (settings : Settings) : Logged Voice :=
  ⟨make bounds settings, [.voiceMade bounds settings]⟩

def step (voice : Voice) : Phase := .ofSpeed voice.speed

def configure (voice : Voice) (settings : Settings) : Voice :=
  { voice with method := settings.method, speed := settings.speed }

def setSpeed (voice : Voice) (speed : Float32) : Voice := { voice with speed }

def setMethod (voice : Voice) (method : Method) : Voice := { voice with method }

/-- Moves the voice, and leaves its loop history as it is. -/
def setPosition (voice : Voice) (position : Phase) : Voice := { voice with position }

/-- Back to the start of the region, with no loop history. -/
def restart (voice : Voice) : Voice :=
  { voice with position := .ofIndex voice.bounds.start.toNat, looped := false }

def validate (voice : Voice) (data : SampleData) (looping : Bool) :
    Checked (Except SetupError Unit) :=
  voice.bounds.validate data.size looping voice.method

end Voice

end Resampler
