import ImpCompiler.Number.Binary64

/-! # Reading numbers

Integers of 32 bits and floats of 64 bits, from their decimal text.  The whole text has
to be a number; a sign may stand before it. -/

namespace ImpCompiler

/-- Splits a sign off: whether it is a minus, and what follows. -/
def splitSign : List Char → Bool × List Char
  | '-' :: cs => (true, cs)
  | '+' :: cs => (false, cs)
  | cs => (false, cs)

/-- The number that the digits `cs` write behind those of `n`. -/
def digitsValue (n : Nat) (cs : List Char) : Nat :=
  cs.foldl (fun n c => 10 * n + (c.toNat - '0'.toNat)) n

/-- The number written by one digit or more. -/
def natOfDigits? (cs : List Char) : Option Nat :=
  if cs.isEmpty || !cs.all Char.isDigit then none else some (digitsValue 0 cs)

/-- The integer of 32 bits that a text writes. -/
def int32OfText? (text : String) : Option Int := do
  let (negative, digits) := splitSign text.toList
  let n ← natOfDigits? digits
  let value : Int := if negative then -n else n
  guard (-0x80000000 ≤ value ∧ value < 0x80000000)
  return value

namespace Binary64

/-- The bits of the float nearest to `digits * 10 ^ exponent`.  The number lies between
    `10 ^ (top - 1)` and `10 ^ top`; far from the range of floats that says enough. -/
def ofDecimal (digits : Nat) (exponent : Int) : Nat :=
  if digits = 0 then 0
  else
    let top : Int := (toString digits).length + exponent
    if 310 < top then infinityBits
    else if top < -330 then 0
    else if 0 ≤ exponent then ofRatio (digits * Nat.pow 10 exponent.toNat) 1
    else ofRatio digits (Nat.pow 10 (-exponent).toNat)

/-- The exponent part of a float: nothing, or a mark and an integer. -/
def exponent? : List Char → Option Int
  | [] => some 0
  | c :: cs =>
    if c = 'e' ∨ c = 'E' then do
      let (negative, digits) := splitSign cs
      let n ← natOfDigits? digits
      return if negative then -n else n
    else
      none

/-- Digits with a point among them, and the exponent part behind. -/
def decimal? (cs : List Char) : Option Nat := do
  let whole := cs.takeWhile Char.isDigit
  let rest := cs.dropWhile Char.isDigit
  let (fraction, rest) :=
    match rest with
    | '.' :: more => (more.takeWhile Char.isDigit, more.dropWhile Char.isDigit)
    | _ => ([], rest)
  let digits ← natOfDigits? (whole ++ fraction)
  let exponent ← exponent? rest
  return ofDecimal digits (exponent - fraction.length)

/-- The bits of the float that a text writes, its sign left out. -/
def magnitude? (cs : List Char) : Option Nat :=
  let word := String.ofList (cs.map Char.toLower)
  if word = "inf" ∨ word = "infinity" then some infinityBits
  else if word = "nan" then some nanBits
  else decimal? cs

/-- The bits of the float that a text writes. -/
def ofText? (text : String) : Option UInt64 := do
  let (negative, cs) := splitSign text.toList
  return withSign negative (← magnitude? cs)

end Binary64

end ImpCompiler
