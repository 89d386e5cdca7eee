import ImpCompiler.Number.Binary64

/-! # Floats with a fixed number of places

The exact value of a float, rounded to a number of decimal places, ties to even; never
with an exponent. -/

namespace ImpCompiler.Binary64

/-- Natural numbers with at least `width` digits. -/
def padded (width n : Nat) : String :=
  let digits := toString n
  String.ofList (List.replicate (width - digits.length) '0') ++ digits

/-- The number `units / 10 ^ places`. -/
def fixedText (places units : Nat) : String :=
  toString (units / Nat.pow 10 places) ++ "." ++ padded places (units % Nat.pow 10 places)

/-- The number of units of `10 ^ -places` nearest to `mantissa * 2 ^ (shift - 1074)`. -/
def units (places mantissa shift : Nat) : Nat :=
  if shift ≤ 1074 then roundDiv (mantissa * Nat.pow 10 places) (Nat.pow 2 (1074 - shift))
  else mantissa * Nat.pow 10 places * Nat.pow 2 (shift - 1074)

/-- A float with `places` decimal places.  Zero keeps its sign, and what is not a number
    has none. -/
def toFixed (places : Nat) (bits : UInt64) : String :=
  match decode bits with
  | .nan => "NaN"
  | .infinity negative => if negative then "-inf" else "inf"
  | .finite negative mantissa shift =>
    (if negative then "-" else "") ++ fixedText places (units places mantissa shift)

end ImpCompiler.Binary64
