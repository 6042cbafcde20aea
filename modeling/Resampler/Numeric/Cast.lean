/-!
Contract: conversions between singles, doubles, and machine integers.

Owns:
- the double with the value of a single;
- the double of a signed integer;
- the cut of a double to a signed integer, which drops the part after the
  point, stays within the type, and takes not-a-number to zero.

The cut to an unsigned integer is the library's own.

Does not own: rounding of a double to a single, or arithmetic within a format.
-/

namespace Resampler

open Float.Model

def widen (value : Float32) : Float :=
  ⟨Float.Model.pack
    (match value.toModel.unpack with
      | .finite sign mantissa exponent _ => UnpackedFloat.round .binary64 sign mantissa exponent
      | .zero sign => .zero sign
      | .infinity sign => .infinity sign
      | .notANumber => .notANumber)⟩

def ofSigned (integer : Int32) : Float := ⟨Float.Model.ofInt32 integer⟩

def cutSigned (value : Float) : Int32 := value.toModel.toInt32

end Resampler
