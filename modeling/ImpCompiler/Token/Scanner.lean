import ImpCompiler.Token

/-! # The scanner

A source text is a sequence of lexemes separated by gaps.  A gap is made of
blanks and of comments that run to the end of their line; the lexeme taken at
each point is the longest one there, and a character that starts none is a
lexeme of its own.  `Scanner.next` reads one token, `tokenize` all of them.

Scanning ends because a lexeme is never empty: `Lexeme.take_length_lt`. -/

namespace ImpCompiler

/-! ## Gaps -/

/-- The characters that separate tokens without being part of any. -/
def isBlank (c : Char) : Bool :=
  c == ' ' || c == '\t' || c == '\r' || c == '\n'

/-- Leaves out the gap at the front of a text and gives the place behind it.
    `inComment` says that the text starts within a comment. -/
def skipGap (inComment : Bool) (p : Position) : List Char → Position × List Char
  | [] => (p, [])
  | c :: cs =>
    if inComment then
      skipGap (c != '\n') (p.next c) cs
    else if isBlank c then
      skipGap false (p.next c) cs
    else if c == '/' && cs.head? == some '/' then
      skipGap true (p.next c) cs
    else
      (p, c :: cs)

theorem skipGap_length_le (inComment : Bool) (p : Position) (cs : List Char) :
    (skipGap inComment p cs).2.length ≤ cs.length := by
  induction cs generalizing inComment p with
  | nil => simp [skipGap]
  | cons c cs ih =>
    have skipped (b : Bool) : (skipGap b (p.next c) cs).2.length ≤ (c :: cs).length :=
      Nat.le_trans (ih b (p.next c)) (Nat.le_succ _)
    unfold skipGap
    split
    · exact skipped _
    · split
      · exact skipped _
      · split
        · exact skipped _
        · exact Nat.le_refl _

/-! ## Lexemes -/

/-- A lexeme: the characters it takes from the source, and kind and text of its
    token. -/
structure Lexeme where
  kind : Kind
  source : List Char
  text : String

namespace Lexeme

/-- A lexeme whose token has the characters themselves as its text. -/
def verbatim (kind : Kind) (source : List Char) : Lexeme :=
  ⟨kind, source, String.ofList source⟩

/-- The text of the token made from a string that is not closed. -/
def unterminated : String := "Unterminated string."

/-- The kind of a lexeme that is always a single character. -/
def punctuation? : Char → Option Kind
  | '(' => some .leftParen
  | ')' => some .rightParen
  | '{' => some .leftBrace
  | '}' => some .rightBrace
  | ';' => some .semicolon
  | ',' => some .comma
  | '+' => some .arithmetic
  | '-' => some .arithmetic
  | '*' => some .arithmetic
  | '/' => some .arithmetic
  | _ => none

/-- The kind of a character that forms a comparison with a following `=`, for
    when no `=` follows. -/
def relation? : Char → Option Kind
  | '=' => some .operator
  | '!' => some .operator
  | '<' => some .compare
  | '>' => some .compare
  | _ => none

def isWordStart (c : Char) : Bool := c.isAlpha || c == '_'

def isWordPart (c : Char) : Bool := c.isAlphanum || c == '_'

/-- A number: digits, and a fraction if the point is followed by a digit. -/
def number (cs : List Char) : Lexeme × List Char :=
  let whole := cs.takeWhile Char.isDigit
  let rest := cs.dropWhile Char.isDigit
  match rest with
  | '.' :: d :: more =>
    if d.isDigit then
      (verbatim .floatLiteral (whole ++ '.' :: (d :: more).takeWhile Char.isDigit),
        (d :: more).dropWhile Char.isDigit)
    else
      (verbatim .intLiteral whole, rest)
  | _ => (verbatim .intLiteral whole, rest)

/-- A word, classified by the table of keywords. -/
def word (cs : List Char) : Lexeme × List Char :=
  let source := cs.takeWhile isWordPart
  (verbatim (Kind.ofWord (String.ofList source)) source, cs.dropWhile isWordPart)

/-- A string, given what stands behind its opening quote: the text up to the
    closing quote, or else an unknown token that runs to the end of the source. -/
def quoted (cs : List Char) : Lexeme × List Char :=
  let content := cs.takeWhile (· != '"')
  match cs.dropWhile (· != '"') with
  | [] => (⟨.unknown, '"' :: content, unterminated⟩, [])
  | quote :: rest => (⟨.stringLiteral, '"' :: content ++ [quote], String.ofList content⟩, rest)

/-- The longest lexeme at the front of the text `c :: cs`, and the text behind it. -/
def take (c : Char) (cs : List Char) : Lexeme × List Char :=
  match punctuation? c with
  | some kind => (verbatim kind [c], cs)
  | none =>
    match relation? c with
    | some alone =>
      match cs with
      | '=' :: rest => (verbatim .compare [c, '='], rest)
      | _ => (verbatim alone [c], cs)
    | none =>
      if c.isDigit then number (c :: cs)
      else if isWordStart c then word (c :: cs)
      else if c == '"' then quoted cs
      else (verbatim .unknown [c], cs)

theorem dropWhile_length_le {α : Type} (p : α → Bool) (xs : List α) :
    (xs.dropWhile p).length ≤ xs.length :=
  (List.dropWhile_suffix p).length_le

theorem number_length_lt {c : Char} (h : c.isDigit = true) (cs : List Char) :
    (number (c :: cs)).2.length < (c :: cs).length := by
  have drop_le : ((c :: cs).dropWhile Char.isDigit).length ≤ cs.length := by
    rw [List.dropWhile_cons_of_pos h]
    exact dropWhile_length_le _ _
  unfold number
  simp only
  split
  · rename_i d more rest_eq
    rw [rest_eq] at drop_le
    split
    · have := dropWhile_length_le Char.isDigit (d :: more)
      simp only [List.length_cons] at this drop_le ⊢
      omega
    · simp only [rest_eq, List.length_cons] at drop_le ⊢
      omega
  · exact Nat.lt_succ_of_le drop_le

theorem word_length_lt {c : Char} (h : isWordStart c = true) (cs : List Char) :
    (word (c :: cs)).2.length < (c :: cs).length := by
  have part : isWordPart c = true := by
    simp only [isWordStart, Bool.or_eq_true] at h
    simp only [isWordPart, Char.isAlphanum, Bool.or_eq_true]
    exact h.imp_left Or.inl
  simp only [word, List.dropWhile_cons_of_pos part]
  exact Nat.lt_succ_of_le (dropWhile_length_le _ _)

theorem quoted_length_le (cs : List Char) : (quoted cs).2.length ≤ cs.length := by
  have drop_le := dropWhile_length_le (· != '"') cs
  unfold quoted
  simp only
  split
  · exact Nat.zero_le _
  · rename_i rest_eq
    rw [rest_eq] at drop_le
    exact Nat.le_of_succ_le drop_le

/-- A lexeme takes at least one character. -/
theorem take_length_lt (c : Char) (cs : List Char) :
    (take c cs).2.length < (c :: cs).length := by
  unfold take
  split
  · exact Nat.lt_succ_self _
  · split
    · split
      · simp only [List.length_cons]; omega
      · exact Nat.lt_succ_self _
    · split
      · exact number_length_lt ‹_› cs
      · split
        · exact word_length_lt ‹_› cs
        · split
          · exact Nat.lt_succ_of_le (quoted_length_le cs)
          · exact Nat.lt_succ_self _

end Lexeme

/-! ## The scanner -/

/-- A source text that has been read up to `position`; `rest` is yet to be read. -/
structure Scanner where
  rest : List Char
  position : Position

namespace Scanner

/-- The scanner at the start of a text. -/
def ofText (source : String) : Scanner :=
  ⟨source.toList, .start⟩

/-- Reads the next token, or the end token once nothing but a gap is left.  The
    position behind is that just after the lexeme, or the end of the text. -/
def next (s : Scanner) : Token × Scanner :=
  match skipGap false s.position s.rest with
  | (p, []) => (.endOfFile p, ⟨[], p⟩)
  | (p, c :: cs) =>
    let (lexeme, rest) := Lexeme.take c cs
    (⟨lexeme.kind, lexeme.text, p⟩, ⟨rest, p.after lexeme.source⟩)

/-- Reading a token other than the end token makes the rest of the text shorter. -/
theorem rest_length_lt_of_next {s behind : Scanner} {t : Token} (step : s.next = (t, behind))
    (goesOn : ¬ t.isEnd = true) : behind.rest.length < s.rest.length := by
  have gap_le := skipGap_length_le false s.position s.rest
  unfold next at step
  split at step
  · cases step
    exact absurd rfl goesOn
  · rename_i p c cs gap_eq
    cases step
    rw [gap_eq] at gap_le
    exact Nat.lt_of_lt_of_le (Lexeme.take_length_lt c cs) gap_le

/-- The tokens from `s` to the end of its text, behind those in `read`, which are
    in reverse order. -/
def tokensAfter (s : Scanner) (read : List Token) : List Token :=
  match step : s.next with
  | (t, behind) =>
    if ends : t.isEnd = true then
      (t :: read).reverse
    else
      have := rest_length_lt_of_next step ends
      tokensAfter behind (t :: read)
termination_by s.rest.length

end Scanner

/-- The tokens of a source text; the last one, and no other, is the end token. -/
def tokenize (source : String) : List Token :=
  (Scanner.ofText source).tokensAfter []

end ImpCompiler
