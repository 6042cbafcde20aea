/-!
Contract: sine and cosine of a double, rounded once.

Owns:
- the power series of both functions, summed in fixed point with 256 bits
  after the point;
- the single rounding of the sum to a double.

The number of terms is chosen for arguments within two turns: there the first
term left out is below one unit of the fixed point, so the sum is far more
exact than the double it is rounded to.

Does not own: reduction of larger arguments.
-/

namespace Resampler.Circular

open Float.Model

/-- Bits after the point. -/
def places : Nat := 256

def one : Int := .ofNat (1 <<< places)

def termCount : Nat := 64

/-- A finite double in fixed point, cut below the last place. -/
def fixed? (value : Float) : Option Int :=
  match value.toModel.unpack with
  | .finite sign mantissa exponent _ =>
      some <| sign.apply <|
        match exponent + places with
        | .ofNat up => .ofNat (mantissa <<< up)
        | .negSucc down => .ofNat (mantissa >>> (down + 1))
  | .zero _ => some 0
  | _ => none

/-- The sum of `count` terms of a series whose term of degree `degree` is
`term` and whose later terms alternate in sign and grow by two degrees:
`-square / ((degree + 1) * (degree + 2))` leads from one to the next. -/
def alternatingSum (square : Int) : (count degree : Nat) → (term : Int) → Int
  | 0, _, _ => 0
  | count + 1, degree, term =>
      term + alternatingSum square count (degree + 2)
        (-(term * square / one / ((degree + 1) * (degree + 2))))

def rounded (value : Int) : Float :=
  ⟨Float.Model.pack (UnpackedFloat.normalize .binary64 value (-places) .positive)⟩

/-- The sine of a finite double; anything else has none. -/
def sine (angle : Float) : Float :=
  match fixed? angle with
  | some fixed => rounded (alternatingSum (fixed * fixed / one) termCount 1 fixed)
  | none => 0.0 / 0.0

def cosine (angle : Float) : Float :=
  match fixed? angle with
  | some fixed => rounded (alternatingSum (fixed * fixed / one) termCount 0 one)
  | none => 0.0 / 0.0

end Resampler.Circular
