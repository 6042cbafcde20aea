import Resampler.Fault
import Resampler.SetupError

/-!
Contract: the part of a waveform that a voice plays, and its loop.

Owns:
- the region, whose last sample belongs to it, and the loop, whose end does
  not;
- the length of the loop and the index at which a voice turns back or stops;
- the check that a method can render the region and the loop.

All sums and differences of indices are checked, those of the check itself
included.

Does not own: the behaviour of a voice whose bounds were not accepted.
-/

namespace Resampler

/-- The playable extent of a waveform: `last` is the last sample of the
region, `loopEnd` is one past the last sample of the loop. -/
structure Bounds where
  start : UInt32
  last : UInt32
  loopStart : UInt32
  loopEnd : UInt32
deriving DecidableEq, Repr, Inhabited

namespace Bounds

/-- The bounds of a sound that is played once, from the first to the last of
`size` samples. -/
def oneShot (size : UInt32) : Bounds :=
  ⟨0, if size = 0 then 0 else size - 1, 0, size⟩

def loopLength (bounds : Bounds) : Checked Nat :=
  Index.minus bounds.loopEnd.toNat bounds.loopStart.toNat

/-- The last index that is rendered before a voice turns back or stops. -/
def lastIndex (bounds : Bounds) (looping : Bool) : Checked Nat :=
  if looping then Index.minus bounds.loopEnd.toNat 1 else .ok bounds.last.toNat

/-- Whether the last sample of the loop is closer than the span to the first
sample played, be that the start of the region or of the loop. -/
def entryTooShort (bounds : Bounds) (loopLast span : Nat) : Checked Bool := do
  let needed ← Index.plus (min bounds.loopStart.toNat bounds.start.toNat) span
  return loopLast < needed

def validateLoop (bounds : Bounds) (size : Nat) (method : Method) :
    Checked (Except SetupError Unit) :=
  if bounds.loopEnd ≤ bounds.loopStart then
    return .error (.emptyLoop bounds.loopStart.toNat bounds.loopEnd.toNat)
  else if size < bounds.loopEnd.toNat then
    return .error (.indexOutside bounds.loopEnd.toNat size)
  else do
    let loopLast ← Index.minus bounds.loopEnd.toNat 1
    let extent ← Index.minus loopLast bounds.loopStart.toNat
    let tooShort := SetupError.regionTooShort method method.span extent
    if extent < method.span then
      return .error tooShort
    else if ← bounds.entryTooShort loopLast method.span then
      return .error tooShort
    else
      return .ok ()

/-- Checks that a method can render data of a given size within the bounds.
The first problem found is reported. -/
def validate (bounds : Bounds) (size : Nat) (looping : Bool) (method : Method) :
    Checked (Except SetupError Unit) :=
  if bounds.last < bounds.start then
    return .error (.startAfterLast bounds.start.toNat bounds.last.toNat)
  else if size ≤ bounds.last.toNat then
    return .error (.indexOutside bounds.last.toNat size)
  else do
    let extent ← Index.minus bounds.last.toNat bounds.start.toNat
    if extent < method.span then
      return .error (.regionTooShort method method.span extent)
    else if looping then
      bounds.validateLoop size method
    else
      return .ok ()

end Bounds

end Resampler
