/-! # Blanks around a text -/

namespace ImpCompiler.Text

/-- The characters that Unicode counts as white space. -/
def isWhiteSpace (c : Char) : Bool :=
  let n := c.toNat
  (0x09 ≤ n && n ≤ 0x0D) || n == 0x20 || n == 0x85 || n == 0xA0 || n == 0x1680 ||
    (0x2000 ≤ n && n ≤ 0x200A) || n == 0x2028 || n == 0x2029 || n == 0x202F || n == 0x205F ||
    n == 0x3000

/-- The characters without the white space at their end. -/
def dropTrailing (cs : List Char) : List Char :=
  (cs.reverse.dropWhile isWhiteSpace).reverse

/-- A text without the white space at its end. -/
def trimEnd (text : String) : String :=
  String.ofList (dropTrailing text.toList)

/-- A text without the white space at either end. -/
def trim (text : String) : String :=
  String.ofList (dropTrailing (text.toList.dropWhile isWhiteSpace))

end ImpCompiler.Text
