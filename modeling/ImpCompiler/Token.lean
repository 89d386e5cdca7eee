/-! # Tokens

A token is a piece of a source text with its kind and the position of its first
character.  Positions count lines and columns from 1; a column is one character
and only a newline starts a new line, so `Position.after` is a plain fold over
the characters read. -/

namespace ImpCompiler

/-! ## Positions -/

/-- A place in a source text. -/
structure Position where
  line : Nat
  column : Nat
deriving DecidableEq

namespace Position

/-- The place of the first character of a text. -/
def start : Position := ⟨1, 1⟩

/-- The place of a token that stands in no source text. -/
def synthetic : Position := ⟨0, 0⟩

/-- The place after the character `c` at `p`. -/
def next (p : Position) (c : Char) : Position :=
  if c = '\n' then ⟨p.line + 1, 1⟩ else ⟨p.line, p.column + 1⟩

/-- The place after the characters `cs`, the first of which is at `p`. -/
def after (p : Position) (cs : List Char) : Position :=
  cs.foldl next p

/-- A position as messages write it. -/
def text (p : Position) : String :=
  toString p.line ++ ":" ++ toString p.column

@[simp] theorem after_nil (p : Position) : p.after [] = p := rfl

@[simp] theorem after_cons (p : Position) (c : Char) (cs : List Char) :
    p.after (c :: cs) = (p.next c).after cs := rfl

@[simp] theorem after_append (p : Position) (cs ds : List Char) :
    p.after (cs ++ ds) = (p.after cs).after ds := by
  simp [after, List.foldl_append]

end Position

/-! ## Kinds -/

/-- The kind of a token. -/
inductive Kind where
  | keyword
  | intLiteral
  | floatLiteral
  | stringLiteral
  | boolLiteral
  | identifier
  /-- `=` and `!` -/
  | operator
  /-- `+`, `-`, `*` and `/` -/
  | arithmetic
  /-- `<`, `>`, `<=`, `>=`, `==` and `!=` -/
  | compare
  | leftParen
  | rightParen
  | leftBrace
  | rightBrace
  | semicolon
  | comma
  /-- A character that starts no lexeme, or a string that is not closed. -/
  | unknown
  | endOfFile
deriving DecidableEq

namespace Kind

/-- Every kind, in the order of the ordinals. -/
def all : List Kind :=
  [.keyword, .intLiteral, .floatLiteral, .stringLiteral, .boolLiteral, .identifier, .operator,
    .arithmetic, .compare, .leftParen, .rightParen, .leftBrace, .rightBrace, .semicolon, .comma,
    .unknown, .endOfFile]

/-- The number that stands for a kind in the text of a token. -/
def ordinal : Kind → Nat
  | .keyword => 0
  | .intLiteral => 1
  | .floatLiteral => 2
  | .stringLiteral => 3
  | .boolLiteral => 4
  | .identifier => 5
  | .operator => 6
  | .arithmetic => 7
  | .compare => 8
  | .leftParen => 9
  | .rightParen => 10
  | .leftBrace => 11
  | .rightBrace => 12
  | .semicolon => 13
  | .comma => 14
  | .unknown => 15
  | .endOfFile => 16

/-- The name of a kind in data formats. -/
def name : Kind → String
  | .keyword => "Keyword"
  | .intLiteral => "IntLiteral"
  | .floatLiteral => "FloatLiteral"
  | .stringLiteral => "StringLiteral"
  | .boolLiteral => "BoolLiteral"
  | .identifier => "Identifier"
  | .operator => "Operator"
  | .arithmetic => "Arithmetic"
  | .compare => "Compare"
  | .leftParen => "LeftParen"
  | .rightParen => "RightParen"
  | .leftBrace => "LeftBrace"
  | .rightBrace => "RightBrace"
  | .semicolon => "Semicolon"
  | .comma => "Comma"
  | .unknown => "Unknown"
  | .endOfFile => "EndOfFile"

/-- The kind with a given name. -/
def ofName? (s : String) : Option Kind :=
  all.find? fun k => k.name == s

/-- The kind of a word: a keyword, a truth value, or else an identifier. -/
def ofWord (word : String) : Kind :=
  if word ∈ ["func", "if", "else", "while", "for", "screenit", "return", "var", "break"] then
    .keyword
  else if word ∈ ["true", "false"] then
    .boolLiteral
  else
    .identifier

end Kind

/-! ## Tokens -/

/-- A piece of source text.  The text of a string literal is what stands between
    its quotes. -/
structure Token where
  kind : Kind
  text : String
  position : Position
deriving DecidableEq

namespace Token

/-- The token `text` of kind `kind` that stands in no source text. -/
def synthetic (kind : Kind) (text : String) : Token :=
  ⟨kind, text, .synthetic⟩

/-- The token that ends a source text at `position`. -/
def endOfFile (position : Position) : Token :=
  ⟨.endOfFile, "", position⟩

/-- Whether a token has the given kind and text. -/
def is (t : Token) (kind : Kind) (text : String) : Bool :=
  t.kind == kind && t.text == text

/-- Whether a token ends the input. -/
def isEnd (t : Token) : Bool :=
  t.kind == .endOfFile

/-- A token as listings write it: ordinal of the kind, text, line and column. -/
def describe (t : Token) : String :=
  "Token(" ++ toString t.kind.ordinal ++ ", \"" ++ t.text ++ "\", " ++ toString t.position.line ++
    ", " ++ toString t.position.column ++ ")"

end Token

end ImpCompiler
