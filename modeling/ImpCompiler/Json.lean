/-! # JSON values

The values that trees and modules are exchanged as, the decoders that take such
values apart, and their text over several lines.

A decoder of a nested type calls itself on a part of the value it is given, so
`Json.atField`, `Json.atOptional` and `Json.atItems` hand the part over together
with the proof that it is smaller. -/

namespace ImpCompiler

/-- A JSON value.  An object lists its fields in the order in which they are written. -/
inductive Json where
  | null
  | bool (value : Bool)
  | int (value : Int)
  /-- The number `mantissa / 10 ^ exponent`, written otherwise than as an integer. -/
  | decimal (mantissa : Int) (exponent : Nat)
  | str (value : String)
  | arr (items : List Json)
  | obj (fields : List (String × Json))
deriving Inhabited

namespace Json

/-! ## Parts -/

/-- The value of a field. -/
def field? : Json → String → Option Json
  | .obj fields, key => fields.lookup key
  | _, _ => none

def str? : Json → Option String
  | .str value => some value
  | _ => none

def bool? : Json → Option Bool
  | .bool value => some value
  | _ => none

def int? : Json → Option Int
  | .int value => some value
  | _ => none

/-- A natural number. -/
def nat? : Json → Option Nat
  | .int (.ofNat value) => some value
  | _ => none

def arr? : Json → Option (List Json)
  | .arr items => some items
  | _ => none

theorem sizeOf_lt_of_lookup {fields : List (String × Json)} {key : String} {value : Json}
    (h : fields.lookup key = some value) : sizeOf value < sizeOf fields := by
  induction fields with
  | nil => simp at h
  | cons entry fields ih =>
    obtain ⟨k, v⟩ := entry
    rw [List.lookup_cons] at h
    split at h
    · cases h
      simp only [List.cons.sizeOf_spec, Prod.mk.sizeOf_spec]
      omega
    · have := ih h
      simp only [List.cons.sizeOf_spec]
      omega

theorem sizeOf_lt_of_field? {j value : Json} {key : String} (h : j.field? key = some value) :
    sizeOf value < sizeOf j := by
  cases j with
  | obj fields =>
    have := sizeOf_lt_of_lookup h
    simp only [obj.sizeOf_spec]
    omega
  | null => simp [field?] at h
  | bool => simp [field?] at h
  | int => simp [field?] at h
  | decimal => simp [field?] at h
  | str => simp [field?] at h
  | arr => simp [field?] at h

theorem sizeOf_lt_of_mem_arr? {j item : Json} {items : List Json} (h : j.arr? = some items)
    (mem : item ∈ items) : sizeOf item < sizeOf j := by
  cases j with
  | arr all =>
    cases h
    have := List.sizeOf_lt_of_mem mem
    simp only [arr.sizeOf_spec]
    omega
  | null => simp [arr?] at h
  | bool => simp [arr?] at h
  | int => simp [arr?] at h
  | decimal => simp [arr?] at h
  | str => simp [arr?] at h
  | obj => simp [arr?] at h

/-! ## Decoders -/

/-- Decodes a field that has to be there. -/
def atField {α : Type} (j : Json) (key : String)
    (decode : (value : Json) → sizeOf value < sizeOf j → Option α) : Option α :=
  match found : j.field? key with
  | some value => decode value (sizeOf_lt_of_field? found)
  | none => none

/-- Decodes a field that may be left out or be null. -/
def atOptional {α : Type} (j : Json) (key : String)
    (decode : (value : Json) → sizeOf value < sizeOf j → Option α) : Option (Option α) :=
  match found : j.field? key with
  | none => some none
  | some .null => some none
  | some value => (decode value (sizeOf_lt_of_field? found)).map some

/-- Decodes every item of a list. -/
def atItems {α : Type} (j : Json)
    (decode : (value : Json) → sizeOf value < sizeOf j → Option α) : Option (List α) :=
  match found : j.arr? with
  | some items => items.attach.mapM fun item => decode item.val (sizeOf_lt_of_mem_arr? found item.property)
  | none => none

/-- Decodes a field that has to be there and does not nest. -/
def get? {α : Type} (j : Json) (key : String) (decode : Json → Option α) : Option α :=
  (j.field? key).bind decode

/-- Decodes a field that may be left out or be null and does not nest. -/
def getOptional? {α : Type} (j : Json) (key : String) (decode : Json → Option α) :
    Option (Option α) :=
  match j.field? key with
  | none => some none
  | some .null => some none
  | some value => (decode value).map some

/-- Decodes every item of a list that does not nest. -/
def list? {α : Type} (j : Json) (decode : Json → Option α) : Option (List α) :=
  j.arr?.bind fun items => items.mapM decode

/-! ## Encoders -/

/-- A natural number as a value. -/
def nat (n : Nat) : Json := .int n

/-- The value of a part that may be absent. -/
def optional {α : Type} (encode : α → Json) : Option α → Json
  | some a => encode a
  | none => .null

/-- An object with one field, whose name says which case its value is. -/
def tagged (tag : String) (fields : List (String × Json)) : Json :=
  .obj [(tag, .obj fields)]

/-! ## Text -/

/-- A digit of base 16. -/
def hexDigit (n : Nat) : Char :=
  if n < 10 then Char.ofNat ('0'.toNat + n) else Char.ofNat ('a'.toNat + (n - 10))

/-- A character within a quoted string: quotes, backslashes and control characters
    are escaped, all others stand for themselves. -/
def escape (c : Char) : String :=
  match c with
  | '"' => "\\\""
  | '\\' => "\\\\"
  | '\n' => "\\n"
  | '\r' => "\\r"
  | '\t' => "\\t"
  | c =>
    if c.toNat = 8 then "\\b"
    else if c.toNat = 12 then "\\f"
    else if c.toNat < 32 then
      "\\u00" ++ String.ofList [hexDigit (c.toNat / 16), hexDigit (c.toNat % 16)]
    else c.toString

/-- A quoted string, behind `acc`. -/
def quote (acc s : String) : String :=
  (s.toList.foldl (fun text c => text ++ escape c) (acc ++ "\"")) ++ "\""

/-- A new line with the indentation of the given depth, behind `acc`. -/
def newline (acc : String) (depth : Nat) : String :=
  Nat.repeat (· ++ "  ") depth (acc ++ "\n")

/-- The decimal text of `mantissa / 10 ^ exponent`. -/
def decimalText (mantissa : Int) (exponent : Nat) : String :=
  let digits := toString mantissa.natAbs
  let padded := String.ofList (List.replicate (exponent + 1 - digits.length) '0') ++ digits
  let whole := padded.toList.take (padded.length - exponent)
  let fraction := padded.toList.drop (padded.length - exponent)
  (if mantissa < 0 then "-" else "") ++ String.ofList whole ++
    (if exponent = 0 then "" else "." ++ String.ofList fraction)

mutual

/-- The text of a value at the given depth, behind `acc`. -/
def write (acc : String) (depth : Nat) : Json → String
  | .null => acc ++ "null"
  | .bool value => acc ++ (if value then "true" else "false")
  | .int value => acc ++ toString value
  | .decimal mantissa exponent => acc ++ decimalText mantissa exponent
  | .str value => quote acc value
  | .arr [] => acc ++ "[]"
  | .arr (item :: items) =>
    newline (writeItems (write (newline (acc ++ "[") (depth + 1)) (depth + 1) item) (depth + 1) items)
      depth ++ "]"
  | .obj [] => acc ++ "\x7b\x7d"
  | .obj ((key, value) :: fields) =>
    newline
      (writeFields
        (write (quote (newline (acc ++ "\x7b") (depth + 1)) key ++ ": ") (depth + 1) value)
        (depth + 1) fields)
      depth ++ "\x7d"

/-- The further items of a list, each on a line of its own. -/
def writeItems (acc : String) (depth : Nat) : List Json → String
  | [] => acc
  | item :: items => writeItems (write (newline (acc ++ ",") depth) depth item) depth items

/-- The further fields of an object, each on a line of its own. -/
def writeFields (acc : String) (depth : Nat) : List (String × Json) → String
  | [] => acc
  | (key, value) :: fields =>
    writeFields (write (quote (newline (acc ++ ",") depth) key ++ ": ") depth value) depth fields

end

/-- The text of a value over several lines, indented by two blanks a level. -/
def pretty (j : Json) : String :=
  write "" 0 j

end Json

end ImpCompiler
