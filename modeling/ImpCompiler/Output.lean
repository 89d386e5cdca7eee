import ImpCompiler.Number.Fixed
import ImpCompiler.Ssa.Module
import ImpCompiler.Text.Utf8

/-! # What a program prints

A program prints through three routines, one for each kind of value, that the module
declares and the machine provides.  Each print ends a line. -/

namespace ImpCompiler

/-- A routine that prints a value. -/
inductive PrintRoutine where
  | text
  | integer
  | real
deriving DecidableEq

namespace PrintRoutine

/-- The name of the function that a module declares. -/
def name : PrintRoutine → String
  | .text => "print_text"
  | .integer => "print_integer"
  | .real => "print_real"

/-- The type of what is printed. -/
def param : PrintRoutine → Ssa.Ty
  | .text => .ptr
  | .integer => .i32
  | .real => .f64

end PrintRoutine

def textLine (text : String) : String :=
  text ++ "\n"

def integerLine (value : Int) : String :=
  toString value ++ "\n"

/-- Floats are printed with six decimal places. -/
def realLine (bits : UInt64) : String :=
  Binary64.toFixed 6 bits ++ "\n"

/-- The line for a text in memory, given its bytes up to the end of the memory that holds
    it; a zero byte ends it.  There may be no text at the address. -/
def memoryLine : Option (List UInt8) → String
  | some bytes => textLine (Utf8.decode (bytes.takeWhile (· != 0)))
  | none => textLine "(null)"

end ImpCompiler
