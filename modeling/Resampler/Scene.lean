import Resampler.Bounds
import Resampler.Course
import Resampler.SampleData
import Resampler.Zone

/-!
Contract: the way of a voice through its region during one render call.

Owns:
- the samples that stand in for taps outside the region: those of the loop
  once the voice has turned back or will turn, else the region's own ends;
- the taps of a kernel in a zone;
- the crossing of zones, and the laps from one turn to the next.

A kernel that interpolates does not turn in the call that fills the last slot
before its landing; the turn is then left to the next call.

Does not own: how the state of a voice enters a call and leaves it.
-/

namespace Resampler

def readRun (read : Reader) (first count : Nat) : Checked (List Float32) :=
  (List.range count).mapM fun distance => do read (← Index.plus first distance)

/-- The index at which a region begins, and stand-ins for the samples before
it, the nearest first. -/
structure Head where
  first : Nat
  standIns : List Float32
deriving DecidableEq

/-- What stays the same during a render call: `last` is the last index before
the voice turns back or stops, and `tail` holds stand-ins for the samples after
it, the nearest first. -/
structure Scene where
  kernel : Kernel
  read : Reader
  bounds : Bounds
  looping : Bool
  step : Phase
  last : Nat
  tail : List Float32

namespace Scene

/-- Stand-ins for the samples after the last: the samples from the start of
the loop when the voice will turn back, else the last sample again. -/
def readTail (kernel : Kernel) (read : Reader) (bounds : Bounds) (looping : Bool) :
    Checked (List Float32) :=
  (List.range kernel.after).mapM fun distance => do
    if looping then read (← Index.plus bounds.loopStart.toNat distance)
    else read bounds.last.toNat

def prepare (kernel : Kernel) (read : Reader) (bounds : Bounds) (looping : Bool)
    (step : Phase) : Checked Scene := do
  let last ← bounds.lastIndex looping
  let tail ← readTail kernel read bounds looping
  return { kernel, read, bounds, looping, step, last, tail }

/-- The head of the region: once the voice has turned back, the loop with the
samples at its end before it, until then the region with its first sample
again. -/
def readHead (scene : Scene) (looped : Bool) : Checked Head := do
  let standIns ← (List.range scene.kernel.before).mapM fun distance => do
    if looped then scene.read (← Index.minus scene.bounds.loopEnd.toNat (distance + 1))
    else scene.read scene.bounds.start.toNat
  return ⟨if looped then scene.bounds.loopStart.toNat else scene.bounds.start.toNat, standIns⟩

def taps (scene : Scene) (head : Head) (zone : Zone) (index : Nat) :
    Checked (List Float32) :=
  match zone with
  | .head past => do
      let missing := scene.kernel.before - past
      let first ← Index.minus index past
      let samples ← readRun scene.read first (scene.kernel.width - missing)
      return (head.standIns.take missing).reverse ++ samples
  | .room ahead => do
      let missing := scene.kernel.after - ahead
      let first ← Index.minus index scene.kernel.before
      let samples ← readRun scene.read first (scene.kernel.width - missing)
      return samples ++ scene.tail.take missing

/-- Fills at most a number of slots while the position is located in a zone. -/
def crossWithin (scene : Scene) (head : Head) (zone : Zone) :
    Nat → Course → Checked Course
  | 0, course => return course
  | slots + 1, course => do
      let index := course.position.index
      if ← zone.admits head.first scene.last index then
        let taps ← scene.taps head zone index
        let sample := scene.kernel.output course.position.row taps
        scene.crossWithin head zone slots (course.emit scene.step sample)
      else
        return course

def cross (scene : Scene) (head : Head) (course : Course) (zone : Zone) : Checked Course :=
  scene.crossWithin head zone course.left course

def crossAll (scene : Scene) (head : Head) (zones : List Zone) (course : Course) :
    Checked Course :=
  zones.foldlM (scene.cross head) course

def mustTurn (scene : Scene) (course : Course) : Bool :=
  scene.looping && scene.last < course.position.index

/-- Lap after lap, until all slots are filled or a voice that does not loop is
past its last sample. Once the voice turns back, its head is that of the loop. -/
def laps (scene : Scene) (head : Head) (course : Course) : Checked Course := do
  let approached ← scene.crossAll head scene.kernel.approach course
  if approached.left = 0 then
    return approached
  else
    let landed ← scene.crossAll head scene.kernel.landing approached
    if scene.mustTurn landed then
      let turned := landed.turn (← scene.bounds.loopLength)
      let head ← scene.readHead true
      if turned.left = 0 then
        return turned
      else if _progress : turned.progressed course then
        scene.laps head turned
      else
        -- The lap that follows would be this one again, and so for ever.
        throw .stalled
    else
      return landed
termination_by course.effort
decreasing_by exact Course.progressed_iff.1 _progress

end Scene

end Resampler
