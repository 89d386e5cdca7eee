/-! # Reading UTF-8

Bytes that are not UTF-8 are read as replacement characters: each longest run of bytes
that starts a character and cannot be carried on, or else each single byte, becomes one. -/

namespace ImpCompiler.Utf8

/-- The character that stands for bytes that are none. -/
def replacement : Char := Char.ofNat 0xFFFD

/-- What a first byte announces: how many bytes follow, the range of the first of them,
    and the bits that the first byte itself carries. -/
structure Lead where
  tails : Nat
  low : UInt8
  high : UInt8
  bits : Nat

/-- The first bytes of characters of two bytes and more. -/
def lead? (b : UInt8) : Option Lead :=
  if 0xC2 ≤ b && b ≤ 0xDF then some ⟨1, 0x80, 0xBF, b.toNat - 0xC0⟩
  else if b = 0xE0 then some ⟨2, 0xA0, 0xBF, 0⟩
  else if b = 0xED then some ⟨2, 0x80, 0x9F, 0xD⟩
  else if 0xE1 ≤ b && b ≤ 0xEF then some ⟨2, 0x80, 0xBF, b.toNat - 0xE0⟩
  else if b = 0xF0 then some ⟨3, 0x90, 0xBF, 0⟩
  else if 0xF1 ≤ b && b ≤ 0xF3 then some ⟨3, 0x80, 0xBF, b.toNat - 0xF0⟩
  else if b = 0xF4 then some ⟨3, 0x80, 0x8F, 4⟩
  else none

/-- Where the reader stands between bytes. -/
inductive State where
  /-- Between characters. -/
  | start
  /-- Within a character: `tails + 1` bytes are to follow, the first of them from `low`
      to `high`, and `bits` is what the bytes so far carry. -/
  | within (tails : Nat) (low high : UInt8) (bits : Nat)

/-- Reads a byte that starts a character: the characters that it completes, and the
    state after it. -/
def first (b : UInt8) : List Char × State :=
  if b < 0x80 then ([Char.ofNat b.toNat], .start)
  else
    match lead? b with
    | some ⟨tails + 1, low, high, bits⟩ => ([], .within tails low high bits)
    | _ => ([replacement], .start)

/-- Reads a byte. -/
def step : State → UInt8 → List Char × State
  | .start, b => first b
  | .within tails low high bits, b =>
    if low ≤ b && b ≤ high then
      let bits := bits * 64 + (b.toNat - 0x80)
      match tails with
      | 0 => ([Char.ofNat bits], .start)
      | tails + 1 => ([], .within tails 0x80 0xBF bits)
    else
      let (chars, state) := first b
      (replacement :: chars, state)

/-- The characters that the bytes yield, behind those in `read`, which are in reverse
    order. -/
def decodeFrom (state : State) (read : List Char) : List UInt8 → List Char
  | [] =>
    match state with
    | .start => read.reverse
    | .within .. => (replacement :: read).reverse
  | b :: bytes =>
    let (chars, state) := step state b
    decodeFrom state (chars.reverse ++ read) bytes

/-- The text that the bytes write. -/
def decode (bytes : List UInt8) : String :=
  String.ofList (decodeFrom .start [] bytes)

end ImpCompiler.Utf8
