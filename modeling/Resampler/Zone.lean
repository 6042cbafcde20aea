import Resampler.Fault
import Resampler.Kernel

/-!
Contract: the zones of a region, told apart by which taps fall outside it.

Owns:
- the zones at the head of a region and before its end;
- the condition on a located index to lie in a zone;
- the order in which a kernel crosses the zones of one lap.

Does not own: what stands in for the taps outside.
-/

namespace Resampler

/-- A part of a region in which the same taps fall outside it. -/
inductive Zone where
  /-- The sample a given number after the first. -/
  | head (past : Nat)
  /-- The samples that have at least a given number of others after them. -/
  | room (ahead : Nat)
deriving DecidableEq, Repr

namespace Zone

/-- Whether a located index lies in the zone of a region. A room of one is
asked for by comparison alone; the other conditions form a sum of indices. -/
def admits (zone : Zone) (first last index : Nat) : Checked Bool :=
  match zone with
  | head past => do return index == (← Index.plus first past)
  | room 0 => return index ≤ last
  | room 1 => return index < last
  | room ahead => do return (← Index.plus index ahead) ≤ last

end Zone

namespace Kernel

/-- The zones that a kernel crosses first in a lap: those at the head and the
one in which no tap falls behind the end. -/
def approach : Kernel → List Zone
  | silence | nearest => []
  | linear => [.room 1]
  | fourthOrder => [.head 0, .room 2]
  | seventhOrder => [.head 0, .head 1, .head 2, .room 3]

/-- The zones that a kernel crosses last in a lap, up to the last sample. -/
def landing : Kernel → List Zone
  | silence | nearest | linear => [.room 0]
  | fourthOrder => [.room 1, .room 0]
  | seventhOrder => [.room 2, .room 1, .room 0]

end Kernel

end Resampler
