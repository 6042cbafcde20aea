import Resampler.Decimal.Shortest

/-!
Contract: the text of a single.

Owns:
- the choice between positional and scientific form;
- the texts of zeros, infinities, and not-a-number.

Does not own: the choice of digits.
-/

namespace Resampler.Decimal

open Float.Model

/-- The decimal exponents of a leading digit that are written positionally. -/
def positional (leading : Int) : Bool := -4 ≤ leading && leading < 16

/-- Digits with the point where the exponent puts it, and at least one digit
on either side of it. -/
def positionalText (digits : List Char) (exponent : Int) : List Char :=
  let pointAt := digits.length + exponent
  if 0 ≤ exponent then
    digits ++ List.replicate exponent.toNat '0' ++ ['.', '0']
  else if 0 < pointAt then
    digits.take pointAt.toNat ++ '.' :: digits.drop pointAt.toNat
  else
    '0' :: '.' :: List.replicate (-pointAt).toNat '0' ++ digits

/-- One digit, the point and the others if there are any, and the exponent of
the first. -/
def scientificText (digits : List Char) (leading : Int) : List Char :=
  let rest := digits.drop 1
  digits.take 1 ++ (if rest.isEmpty then [] else '.' :: rest) ++ 'e' :: (toString leading).toList

/-- A decimal from `0.0001` to below `10 ^ 16` is written positionally, any
other scientifically. -/
def Shortest.text (decimal : Shortest) : List Char :=
  let digits := Nat.toDigits 10 decimal.digits
  let leading := digits.length - 1 + decimal.exponent
  if positional leading then positionalText digits decimal.exponent
  else scientificText digits leading

def signed (sign : UnpackedFloat.Sign) (magnitude : List Char) : String :=
  match sign with
  | .positive => String.ofList magnitude
  | .negative => String.ofList ('-' :: magnitude)

/-- A single with the fewest digits that identify it. -/
def textOfSingle (value : Float32) : String :=
  match value.toModel.unpack with
  | .finite sign mantissa exponent _ =>
      signed sign (RoundingInterval.shortest ⟨mantissa, exponent⟩).text
  | .zero sign => signed sign ['0', '.', '0']
  | .infinity sign => signed sign ['i', 'n', 'f']
  | .notANumber => "NaN"

end Resampler.Decimal
