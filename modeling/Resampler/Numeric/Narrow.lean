/-!
Contract: rounding of a double to the nearest single.

Owns:
- the one rounding step between the two formats, ties to the even mantissa,
  with the sign of zero, infinities and not-a-number kept.

Does not own: arithmetic within either format.
-/

namespace Resampler

open Float.Model

/-- The single nearest to a double. -/
def narrow (value : Float) : Float32 :=
  ⟨Float32.Model.pack
    (match value.toModel.unpack with
      | .finite sign mantissa exponent _ =>
          UnpackedFloat.roundWithAccuracy .binary32 sign mantissa exponent .exact
      | .zero sign => .zero sign
      | .infinity sign => .infinity sign
      | .notANumber => .notANumber)⟩

end Resampler
