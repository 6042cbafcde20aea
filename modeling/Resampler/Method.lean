import Resampler.Kernel

/-!
Contract: the interpolation methods that a voice can be set to.

Owns:
- the four methods, their codes in sound banks, and their names;
- the kernel that renders each of them.

Does not own: the notice given for a code that means no method.
-/

namespace Resampler

/-- An interpolation method, cheapest first. -/
inductive Method where
  | nearest
  | linear
  | fourthOrder
  | seventhOrder
deriving DecidableEq, Repr

namespace Method

instance : Inhabited Method := ⟨fourthOrder⟩

def code : Method → Int
  | nearest => 0
  | linear => 1
  | fourthOrder => 4
  | seventhOrder => 7

def ofCode? (code : Int) : Option Method :=
  if code = 0 then some nearest
  else if code = 1 then some linear
  else if code = 4 then some fourthOrder
  else if code = 7 then some seventhOrder
  else none

def name : Method → String
  | nearest => "None"
  | linear => "Linear"
  | fourthOrder => "FourthOrder"
  | seventhOrder => "SeventhOrder"

def kernel : Method → Kernel
  | nearest => .nearest
  | linear => .linear
  | fourthOrder => .fourthOrder
  | seventhOrder => .seventhOrder

def span (method : Method) : Nat := method.kernel.span

@[simp] theorem ofCode?_code (method : Method) : ofCode? method.code = some method := by
  cases method <;> rfl

/-- A code means at most one method. -/
theorem ofCode?_eq_some_iff {code : Int} {method : Method} :
    ofCode? code = some method ↔ code = method.code := by
  constructor
  · intro found
    simp only [ofCode?] at found
    split at found
    · cases found
      assumption
    split at found
    · cases found
      assumption
    split at found
    · cases found
      assumption
    split at found
    · cases found
      assumption
    cases found
  · rintro rfl
    exact ofCode?_code method

end Method

end Resampler
