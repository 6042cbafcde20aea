import Resampler.Render
import Resampler.Scene.Lap
import Resampler.Scene.Invariant
import Resampler.Proofs.Units
import Resampler.Proofs.Acceptance
import Resampler.Proofs.Scene.Reads
import Resampler.Proofs.Scene.Crossing
import Resampler.Proofs.Scene.Window
import Resampler.Proofs.Scene.Laps
import Resampler.Proofs.Scene.Simulation
import Resampler.Proofs.Scene.Safety
import Resampler.Proofs.Scene.Companion
import Resampler.Proofs.Playback
import Resampler.Proofs.Reference
import Resampler.Proofs.Session
import Resampler.Proofs.Independence
import Resampler.Proofs.LoopedPlayback
import Resampler.Proofs.PlayOut
import Resampler.Proofs.OneShotPlayback
import Resampler.Proofs.Handover
import Resampler.Proofs.Resumption
import Resampler.Proofs.Weights
import Resampler.Proofs.Seam
import Resampler.Proofs.Interruption
import Resampler.Proofs.Accounting
import Resampler.Proofs.Turning
import Resampler.Proofs.Silence
import Resampler.Proofs.Confinement
import Resampler.Proofs.Depth
import Resampler.Proofs.Release
import Resampler.Proofs.Overreach
import Resampler.Proofs.LateEntry
import Resampler.Proofs.Termination
import Resampler.Proofs.Revolution
import Resampler.Proofs.PastEnd
import Resampler.Proofs.Numeric.Stored
import Resampler.Proofs.Numeric.Reading
import Resampler.Proofs.Numeric.Casts
import Resampler.Proofs.Numeric.Neutral
import Resampler.Proofs.Numeric.Chord
import Resampler.Proofs.Speeds
import Resampler.Proofs.Duration
import Resampler.Proofs.Forward
import Resampler.Proofs.Verbatim
import Resampler.Proofs.StraightLine
