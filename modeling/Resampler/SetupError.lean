import Resampler.Method

/-!
Contract: the problems that can be found before a voice is rendered.

Owns:
- one case for each problem, with what is needed to report it;
- the text of each report.

Does not own: the order in which bounds are checked.
-/

namespace Resampler

inductive SetupError where
  /-- There is not one low byte for each word. -/
  | lowByteCount (words bytes : Nat)
  /-- The region ends before it starts. -/
  | startAfterLast (start last : Nat)
  /-- An index lies beyond the data. -/
  | indexOutside (index size : Nat)
  /-- The loop holds no sample. -/
  | emptyLoop (loopStart loopEnd : Nat)
  /-- The region or the loop is too short for the method. -/
  | regionTooShort (method : Method) (needed available : Nat)
deriving DecidableEq, Repr

namespace SetupError

def message : SetupError → String
  | lowByteCount words bytes => s!"extension has {bytes} bytes for {words} sample words"
  | startAfterLast start last => s!"start {start} lies after end {last}"
  | indexOutside index size => s!"index {index} is outside sample data of length {size}"
  | emptyLoop loopStart loopEnd =>
      s!"loop start {loopStart} is not before loop end {loopEnd}"
  | regionTooShort method needed available =>
      s!"{method.name} needs {needed} samples after the region start, region has {available}"

end SetupError

end Resampler
