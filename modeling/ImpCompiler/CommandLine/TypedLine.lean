import ImpCompiler.Text.Cluster

/-! # Typed lines

A line of input holds what was typed, corrections included: a backspace takes back the
cluster before it, if there is one. -/

namespace ImpCompiler

/-- A line as it stands after some of its clusters have been typed. -/
structure TypedLine where
  /-- The characters of the line, the latest first. -/
  text : List Char
  /-- How many bytes each backspace to come takes back. -/
  sizes : List Nat

namespace TypedLine

/-- An empty line. -/
def empty : TypedLine := ⟨[], []⟩

/-- The character that takes back. -/
def backspace : Char := Char.ofNat 8

/-- The bytes that a cluster takes in UTF-8. -/
def byteSize (cluster : List Char) : Nat :=
  cluster.foldl (fun size c => size + c.utf8Size) 0

/-- Takes back as many characters as fill at most `size` bytes.  The latest comes first. -/
def takeBack (size : Nat) : List Char → List Char
  | [] => []
  | c :: cs => if c.utf8Size ≤ size then takeBack (size - c.utf8Size) cs else c :: cs

/-- The line after one more cluster.  The size of a cluster is kept in one byte: of a
    cluster of 256 bytes and more, a backspace takes back what exceeds a multiple of 256. -/
def type (line : TypedLine) (cluster : List Char) : TypedLine :=
  if cluster = [backspace] then
    match line.sizes with
    | [] => line
    | size :: sizes => ⟨takeBack size line.text, sizes⟩
  else
    ⟨cluster.reverse ++ line.text, byteSize cluster % 256 :: line.sizes⟩

end TypedLine

/-- What is left of a line once its backspaces have done their work. -/
def typedText (line : String) : String :=
  String.ofList ((Text.clusters line.toList).foldl TypedLine.type .empty).text.reverse

end ImpCompiler
