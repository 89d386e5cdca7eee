import ImpCompiler.Number.Rounding

/-! # Floats of 64 bits

A finite float is `m * 2 ^ q` with `m < 2 ^ 53` and `q` from -1074 on; its bits are
`(q + 1074) * 2 ^ 52 + m` for the least such `q`.  Counting a step of `q` as `2 ^ 52`
makes the carry of a mantissa that is rounded up to `2 ^ 53` come out right, and with
it the step from the greatest float to infinity. -/

namespace ImpCompiler.Binary64

/-- The bits of infinity. -/
def infinityBits : Nat := 0x7FF0000000000000

/-- The bits of the float that stands for no number. -/
def nanBits : Nat := 0x7FF8000000000000

/-- The bit of the sign. -/
def signBit : Nat := 0x8000000000000000

/-- The float nearest to `num / den`, ties to even, where `num` and `den` are not zero.
    The exponent is counted from -1074 on: `shift` is `q + 1074`. -/
def ofRatio (num den : Nat) : Nat :=
  -- The quotient lies between `2 ^ (lead - 1)` and `2 ^ (lead + 1)`.
  let lead : Int := (Nat.log2 num : Int) - Nat.log2 den
  let below : Bool :=
    if 0 ≤ lead then num < den * Nat.pow 2 lead.toNat else num * Nat.pow 2 (-lead).toNat < den
  let exponent : Int := (if below then lead - 1 else lead) - 52
  let shift : Nat := (exponent + 1074).toNat
  let mantissa :=
    if shift ≤ 1074 then roundDiv (num * Nat.pow 2 (1074 - shift)) den
    else roundDiv num (den * Nat.pow 2 (shift - 1074))
  min (shift * Nat.pow 2 52 + mantissa) infinityBits

/-- The bits with the given sign. -/
def withSign (negative : Bool) (bits : Nat) : UInt64 :=
  UInt64.ofNat (if negative then signBit + bits else bits)

/-- What the bits of a float stand for. -/
inductive Decoded where
  | nan
  | infinity (negative : Bool)
  /-- The number `mantissa * 2 ^ (shift - 1074)`. -/
  | finite (negative : Bool) (mantissa shift : Nat)

def decode (bits : UInt64) : Decoded :=
  let n := bits.toNat
  let negative := decide (signBit ≤ n)
  let magnitude := n % signBit
  if infinityBits < magnitude then .nan
  else if magnitude = infinityBits then .infinity negative
  else
    let field := magnitude / Nat.pow 2 52
    let fraction := magnitude % Nat.pow 2 52
    if field = 0 then .finite negative fraction 0
    else .finite negative (Nat.pow 2 52 + fraction) (field - 1)

end ImpCompiler.Binary64
