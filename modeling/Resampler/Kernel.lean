import Resampler.Weights.Table

/-!
Contract: the ways of making an output sample from stored samples.

Owns:
- the five kernels, the taps each has around the sample a position is located
  at, and where it locates a position;
- the distance between the ends of a region that a kernel needs;
- the output sample of a kernel for given taps.

Does not own: which stored sample stands behind a tap.
-/

namespace Resampler

inductive Kernel where
  /-- Zeros, for a voice that has to stay in time but is not heard. -/
  | silence
  /-- The stored sample nearest to the position. -/
  | nearest
  /-- The straight line between two stored samples. -/
  | linear
  /-- A cubic through four stored samples. -/
  | fourthOrder
  /-- A windowed sinc over seven stored samples. -/
  | seventhOrder
deriving DecidableEq, Repr

namespace Kernel

/-- How many taps a kernel has. -/
def width : Kernel → Nat
  | silence => 0
  | nearest => 1
  | linear => 2
  | fourthOrder => 4
  | seventhOrder => 7

/-- How many taps lie before the located sample. -/
def before : Kernel → Nat
  | silence | nearest | linear => 0
  | fourthOrder => 1
  | seventhOrder => 3

/-- How many taps lie after the located sample. -/
def after : Kernel → Nat
  | silence | nearest => 0
  | linear => 1
  | fourthOrder => 2
  | seventhOrder => 3

/-- The least distance between the first and the last index of a region or
loop that a kernel can render. -/
def span : Kernel → Nat
  | silence | nearest => 0
  | linear => 1
  | fourthOrder => 2
  | seventhOrder => 5

/-- How far a position is moved on before it is located. Moved by half a
sample, the sample at or before a position is the one nearest to it. -/
def shift : Kernel → Phase
  | silence | nearest | seventhOrder => .half
  | linear | fourthOrder => .zero

def output (kernel : Kernel) (row : Fin Phase.rowCount) (taps : List Float32) : Float32 :=
  match kernel with
  | silence => 0
  | nearest => taps.headD 0
  | linear => Weights.weigh (Weights.linearTable.get row) taps
  | fourthOrder => Weights.weigh (Weights.cubicTable.get row) taps
  | seventhOrder => Weights.weigh (Weights.sincTable.get row) taps

/-- A kernel that reads has the located sample besides those before and after
it. -/
theorem width_eq_of_ne_silence {kernel : Kernel} (audible : kernel ≠ silence) :
    kernel.width = kernel.before + 1 + kernel.after := by
  cases kernel with
  | silence => exact absurd rfl audible
  | _ => rfl

/-- A kernel rounds positions, or it truncates them. -/
theorem shift_eq (kernel : Kernel) :
    kernel.shift = .half ∨ kernel.shift = .zero ∧ (kernel = linear ∨ kernel = fourthOrder) := by
  cases kernel <;> simp [shift]

/-! ## Taps against spans -/

theorem before_le (kernel : Kernel) : kernel.before ≤ 3 := by
  cases kernel <;> decide

theorem after_le (kernel : Kernel) : kernel.after ≤ 3 := by
  cases kernel <;> decide

theorem after_le_span (kernel : Kernel) : kernel.after ≤ kernel.span := by
  cases kernel <;> decide

theorem taps_le_span (kernel : Kernel) :
    kernel.before ≤ kernel.span + 1 ∧ kernel.after ≤ kernel.span + 1 := by
  cases kernel <;> decide

theorem before_add_after_le {kernel : Kernel} {past : Nat} (near : past < kernel.before) :
    past + kernel.after ≤ kernel.span := by
  cases kernel <;> simp only [before, after, span] at * <;> omega

theorem before_le_span {kernel : Kernel} (many : 2 ≤ kernel.after) :
    kernel.before ≤ kernel.span := by
  cases kernel <;> simp only [before, after, span] at * <;> omega

end Kernel

end Resampler
