import Mathlib.Data.List.Induction
import Mathlib.Logic.Function.Iterate
import ImpCompiler.Proofs.Token.Lines

/-! # The layout of a source text

A source text is made of pieces, each of them a gap and the lexeme behind it, and of a last gap.  No
character is left out and none is counted twice: every token says what its lexeme says, at the place
that the characters before the lexeme lead to (`tokenize_layout`).

`Scanner.Reads` follows the scanner from piece to piece.  What is said of the tokens and of the
scanner on the way is proved along it. -/

namespace ImpCompiler

/-! ## Places -/

/-- The place behind a text: its newlines give the line, and what stands behind the last of them
    gives the column. -/
def Position.behind (text : List Char) : Position :=
  ⟨1 + text.count '\n', 1 + (text.reverse.takeWhile (· != '\n')).length⟩

theorem Position.behind_concat (text : List Char) (c : Char) :
    Position.behind (text ++ [c]) = (Position.behind text).next c := by
  by_cases newline : c = '\n'
  · simp [Position.behind, Position.next, newline, Nat.add_assoc]
  · simp [Position.behind, Position.next, newline, Nat.add_comm]

theorem Position.after_start (text : List Char) : Position.start.after text = Position.behind text := by
  induction text using List.reverseRecOn with
  | nil => rfl
  | append_singleton text c ih =>
    rw [Position.after_append, ih, Position.behind_concat]
    rfl

/-! ## Gaps -/

/-- `gap` consists of blanks and of comments, where `rest` follows.  A comment runs to the end of its
    line. -/
inductive Gap : List Char → List Char → Prop where
  | empty {rest} : Gap [] rest
  | blank {c gap rest} (blank : isBlank c = true) (further : Gap gap rest) : Gap (c :: gap) rest
  | comment {text gap rest} (line : '\n' ∉ text) (ends : ∀ c, (gap ++ rest).head? = some c → c = '\n')
      (further : Gap gap rest) : Gap ('/' :: '/' :: (text ++ gap)) rest

/-- Whether a text starts with a blank or a comment. -/
def startsGap (text : List Char) : Bool :=
  text.head?.any isBlank || ['/', '/'].isPrefixOf text

/-- The gap at the front of a text ends where the text goes on with something else. -/
theorem exists_gap (text : List Char) :
    ∃ gap rest, text = gap ++ rest ∧ Gap gap rest ∧ startsGap rest = false := by
  cases text with
  | nil => exact ⟨[], [], rfl, .empty, rfl⟩
  | cons c cs =>
    by_cases blank : isBlank c = true
    · obtain ⟨gap, rest, rfl, skipped, stops⟩ := exists_gap cs
      exact ⟨c :: gap, rest, rfl, .blank blank skipped, stops⟩
    by_cases comment : ['/', '/'].isPrefixOf (c :: cs) = true
    · obtain ⟨more, same⟩ := List.isPrefixOf_iff_prefix.mp comment
      have length := congrArg List.length same
      have shorter := Lexeme.dropWhile_length_le (· != '\n') more
      obtain ⟨gap, rest, split, skipped, stops⟩ := exists_gap (more.dropWhile (· != '\n'))
      refine ⟨'/' :: '/' :: (more.takeWhile (· != '\n') ++ gap), rest, ?_, ?_, stops⟩
      · simp [← same, ← split, List.takeWhile_append_dropWhile]
      · refine .comment (fun member => ?_) (fun d found => ?_) skipped
        · simpa using List.mem_takeWhile_imp member
        · rw [← split] at found
          simpa [found] using List.head?_dropWhile_not (· != '\n') more
    · refine ⟨[], c :: cs, rfl, .empty, ?_⟩
      rw [startsGap, List.head?_cons, Option.any_some, Bool.eq_false_iff.mpr blank,
        Bool.eq_false_iff.mpr comment]
      rfl
termination_by text.length
decreasing_by
  · exact Nat.lt_succ_self _
  · simp only [List.length_append, List.length_cons, List.length_nil] at length ⊢
    omega

theorem skipGap_of_stops {rest : List Char} (stops : startsGap rest = false) (p : Position) :
    skipGap false p rest = (p, rest) := by
  cases rest with
  | nil => rfl
  | cons c cs =>
    simp only [startsGap, List.head?_cons, Option.any_some, Bool.or_eq_false_iff] at stops
    obtain ⟨blank, comment⟩ := stops
    have slashes : (c == '/' && cs.head? == some '/') = false := by
      cases cs with
      | nil => simp
      | cons d ds => simpa [List.isPrefixOf, Bool.beq_comm] using comment
    rw [skipGap, blank, slashes]
    rfl

/-- Within a comment, everything up to the end of the line is left out. -/
theorem skipGap_comment {text : List Char} (line : '\n' ∉ text) (p : Position) {rest : List Char}
    (ends : ∀ c, rest.head? = some c → c = '\n') :
    skipGap true p (text ++ rest) = skipGap false (p.after text) rest := by
  induction text generalizing p with
  | nil =>
    cases rest with
    | nil => rfl
    | cons c cs =>
      rw [ends c rfl]
      rfl
  | cons c text ih =>
    obtain ⟨other, line⟩ := List.ne_and_not_mem_of_not_mem_cons line
    have inside : (c != '\n') = true := by simpa using Ne.symm other
    rw [List.cons_append, skipGap, if_pos rfl, inside, ih line, Position.after_cons]

/-- The scanner leaves out a gap and nothing behind it. -/
theorem skipGap_eq {gap rest : List Char} (skipped : Gap gap rest) (stops : startsGap rest = false)
    (p : Position) : skipGap false p (gap ++ rest) = (p.after gap, rest) := by
  induction skipped generalizing p with
  | empty => exact skipGap_of_stops stops p
  | blank blank _ ih =>
    rw [List.cons_append, skipGap, if_neg Bool.false_ne_true, if_pos blank, ih stops, Position.after_cons]
  | @comment text gap rest line ends _ ih =>
    have inside : '\n' ∉ '/' :: text := by simp [line]
    have opens : skipGap false p ('/' :: '/' :: (text ++ gap) ++ rest) =
        skipGap true (p.next '/') ('/' :: text ++ (gap ++ rest)) := by
      simp [skipGap, isBlank]
    rw [opens, skipGap_comment inside _ ends, ih stops]
    simp

/-! ## Lexemes -/

namespace Lexeme

/-- A string that is not closed. -/
def isOpen (lexeme : Lexeme) : Bool :=
  lexeme.kind == .unknown && lexeme.source.head? == some '"'

/-- The token says what the lexeme says: its characters, what stands between the quotes of a string,
    or that a string is not closed. -/
inductive Written : Lexeme → Prop where
  | verbatim {kind c cs} (plain : c ≠ '"') (other : kind ≠ .stringLiteral) (inside : kind ≠ .endOfFile) :
      Written (verbatim kind (c :: cs))
  | closed {content} (within : '"' ∉ content) :
      Written ⟨.stringLiteral, '"' :: content ++ ['"'], String.ofList content⟩
  | opened {content} (within : '"' ∉ content) : Written ⟨.unknown, '"' :: content, unterminated⟩

theorem not_mem_takeWhile_quote (cs : List Char) : '"' ∉ cs.takeWhile (· != '"') := by
  intro member
  simpa using List.mem_takeWhile_imp member

theorem quoted_written (cs : List Char) : (quoted cs).1.Written := by
  have stop := List.head?_dropWhile_not (· != '"') cs
  rw [quoted]
  split
  · exact .opened (not_mem_takeWhile_quote cs)
  · rename_i quote rest closed
    rw [closed, List.head?_cons] at stop
    obtain rfl : quote = '"' := by simpa using stop
    exact .closed (not_mem_takeWhile_quote cs)

theorem quoted_of_isOpen {cs : List Char} (opened : (quoted cs).1.isOpen = true) : (quoted cs).2 = [] := by
  revert opened
  rw [quoted]
  split
  · exact fun _ => rfl
  · intro opened
    simp [isOpen] at opened

theorem isVerbatim_number (cs : List Char) :
    ∃ kind source, (number cs).1 = verbatim kind source ∧ kind ≠ .stringLiteral := by
  rw [number]
  split
  · split
    · exact ⟨_, _, rfl, by decide⟩
    · exact ⟨_, _, rfl, by decide⟩
  · exact ⟨_, _, rfl, by decide⟩

/-- But for strings, a token has the characters of its lexeme as its text. -/
theorem isVerbatim_take {c : Char} (plain : c ≠ '"') (cs : List Char) :
    ∃ kind source, (take c cs).1 = verbatim kind source ∧ kind ≠ .stringLiteral := by
  have punctuation : punctuation? c ≠ some .stringLiteral := by
    unfold punctuation?
    split <;> decide
  have relation : relation? c ≠ some .stringLiteral := by
    unfold relation?
    split <;> decide
  unfold take
  split
  · rename_i kind found
    exact ⟨kind, [c], rfl, fun same => punctuation (found.trans (congrArg some same))⟩
  split
  · rename_i alone found
    split
    · exact ⟨.compare, [c, '='], rfl, by decide⟩
    · exact ⟨alone, [c], rfl, fun same => relation (found.trans (congrArg some same))⟩
  split
  · exact isVerbatim_number (c :: cs)
  split
  · exact ⟨_, _, rfl, Kind.ofWord_ne (by decide) _⟩
  split
  · rename_i quote
    exact absurd (eq_of_beq quote) plain
  · exact ⟨.unknown, [c], rfl, by decide⟩

theorem take_source_cons (c : Char) (cs : List Char) : ∃ more, (take c cs).1.source = c :: more := by
  have whole := take_source c cs
  have shorter := take_length_lt c cs
  cases source : (take c cs).1.source with
  | nil =>
    rw [source, List.nil_append] at whole
    rw [whole] at shorter
    exact absurd shorter (Nat.lt_irrefl _)
  | cons d more =>
    rw [source, List.cons_append] at whole
    exact ⟨more, by rw [(List.cons.inj whole).1]⟩

theorem take_written (c : Char) (cs : List Char) : (take c cs).1.Written := by
  by_cases quote : c = '"'
  · subst quote
    exact quoted_written cs
  · obtain ⟨kind, source, same, other⟩ := isVerbatim_take quote cs
    obtain ⟨more, starts⟩ := take_source_cons c cs
    have inside := take_kind_ne c cs
    rw [same] at starts inside ⊢
    obtain rfl : source = c :: more := starts
    exact .verbatim quote other inside

/-- A string that is not closed runs to the end of the text. -/
theorem take_of_isOpen {c : Char} {cs : List Char} (opened : (take c cs).1.isOpen = true) :
    (take c cs).2 = [] := by
  obtain ⟨more, starts⟩ := take_source_cons c cs
  have quote : c = '"' := by
    rw [isOpen, Bool.and_eq_true, starts] at opened
    simpa using opened.2
  subst quote
  exact quoted_of_isOpen opened

end Lexeme

/-! ## Pieces -/

/-- A lexeme and the gap in front of it. -/
structure Piece where
  gap : List Char
  lexeme : Lexeme

/-- The characters of pieces, in order. -/
def Piece.characters (pieces : List Piece) : List Char :=
  pieces.flatMap fun piece => piece.gap ++ piece.lexeme.source

/-- The text consists of the pieces and of a last gap.  Each gap ends where its lexeme starts, and a
    string that is not closed is the end of the text. -/
inductive Piece.Lay : List Char → List Piece → Prop where
  | ending {gap} (skipped : Gap gap []) : Lay gap []
  | next {gap lexeme rest pieces} (skipped : Gap gap (lexeme.source ++ rest))
      (stops : startsGap (lexeme.source ++ rest) = false) (written : lexeme.Written)
      (last : lexeme.isOpen = true → rest = []) (further : Lay rest pieces) :
      Lay (gap ++ (lexeme.source ++ rest)) (⟨gap, lexeme⟩ :: pieces)

namespace Scanner

/-- The scanner with the next token read. -/
def advance (s : Scanner) : Scanner :=
  s.next.2

/-- The pieces that are read from a scanner on. -/
inductive Reads : Scanner → List Piece → Prop where
  | ending {p gap} (skipped : Gap gap []) : Reads ⟨gap, p⟩ []
  | next {p gap c cs pieces} (skipped : Gap gap (c :: cs)) (stops : startsGap (c :: cs) = false)
      (further : Reads ⟨(Lexeme.take c cs).2, (p.after gap).after (Lexeme.take c cs).1.source⟩ pieces) :
      Reads ⟨gap ++ c :: cs, p⟩ (⟨gap, (Lexeme.take c cs).1⟩ :: pieces)

theorem exists_reads (p : Position) (text : List Char) : ∃ pieces, Reads ⟨text, p⟩ pieces := by
  obtain ⟨gap, rest, split, skipped, stops⟩ := exists_gap text
  cases rest with
  | nil =>
    rw [split, List.append_nil]
    exact ⟨[], .ending skipped⟩
  | cons c cs =>
    have shorter : (Lexeme.take c cs).2.length < text.length := by
      have taken := Lexeme.take_length_lt c cs
      rw [split, List.length_append]
      omega
    obtain ⟨pieces, further⟩ :=
      exists_reads ((p.after gap).after (Lexeme.take c cs).1.source) (Lexeme.take c cs).2
    rw [split]
    exact ⟨_, .next skipped stops further⟩
termination_by text.length

theorem Reads.lay {s : Scanner} {pieces : List Piece} (reads : Reads s pieces) :
    Piece.Lay s.rest pieces := by
  induction reads with
  | ending skipped => exact .ending skipped
  | @next p gap c cs pieces skipped stops _ ih =>
    have whole := take_source c cs
    rw [← whole] at skipped stops ⊢
    exact .next skipped stops (Lexeme.take_written c cs) Lexeme.take_of_isOpen ih

theorem next_of_ending {gap : List Char} (skipped : Gap gap []) (p : Position) :
    next ⟨gap, p⟩ = (.endOfFile (p.after gap), ⟨[], p.after gap⟩) := by
  have gone := skipGap_eq skipped rfl p
  rw [List.append_nil] at gone
  exact next_of_gap gone

theorem next_of_piece {gap cs : List Char} {c : Char} (skipped : Gap gap (c :: cs))
    (stops : startsGap (c :: cs) = false) (p : Position) :
    next ⟨gap ++ c :: cs, p⟩ =
      (⟨(Lexeme.take c cs).1.kind, (Lexeme.take c cs).1.text, p.after gap⟩,
        ⟨(Lexeme.take c cs).2, (p.after gap).after (Lexeme.take c cs).1.source⟩) :=
  next_of_lexeme (skipGap_eq skipped stops p)

theorem after_piece (p : Position) (gap : List Char) (c : Char) (cs : List Char) :
    ((p.after gap).after (Lexeme.take c cs).1.source).after (Lexeme.take c cs).2 =
      p.after (gap ++ c :: cs) := by
  rw [← Position.after_append, take_source, Position.after_append]

/-- The token of the piece with number `k`, if the text of all pieces starts at `p`. -/
def tokenOf (p : Position) (pieces : List Piece) (k : Nat) (piece : Piece) : Token :=
  ⟨piece.lexeme.kind, piece.lexeme.text, p.after (Piece.characters (pieces.take k) ++ piece.gap)⟩

/-- There is one token for each piece, and the end token. -/
theorem Reads.tokens {s : Scanner} {pieces : List Piece} (reads : Reads s pieces) :
    s.tokensAfter [] =
      pieces.mapIdx (tokenOf s.position pieces) ++ [.endOfFile (s.position.after s.rest)] := by
  induction reads with
  | @ending p gap skipped =>
    rw [tokensAfter_of_end (next_of_ending skipped p) rfl]
    rfl
  | @next p gap c cs pieces skipped stops _ ih =>
    -- a piece further on has one more piece in front of it
    have shift : (fun k => tokenOf p (⟨gap, (Lexeme.take c cs).1⟩ :: pieces) (k + 1)) =
        tokenOf ((p.after gap).after (Lexeme.take c cs).1.source) pieces := by
      funext k piece
      simp [tokenOf, Piece.characters]
    rw [tokens_of_token (next_of_piece skipped stops p) (beq_false_of_ne (take_kind_ne c cs)), ih, after_piece,
      List.mapIdx_cons, shift]
    rfl

/-- The end is read again and again. -/
theorem advance_at_end (p : Position) (k : Nat) : advance^[k] ⟨[], p⟩ = ⟨[], p⟩ :=
  Function.iterate_fixed (rfl : advance ⟨[], p⟩ = ⟨[], p⟩) k

/-- Reading one token after the other gives all tokens, and then the end token forever. -/
theorem Reads.next_iterate {s : Scanner} {pieces : List Piece} (reads : Reads s pieces) (k : Nat) :
    (advance^[k] s).next.1 = (s.tokensAfter []).getD k (.endOfFile (s.position.after s.rest)) := by
  induction reads generalizing k with
  | @ending p gap skipped =>
    have step := next_of_ending skipped p
    rw [tokensAfter_of_end step rfl]
    cases k with
    | zero => rw [Function.iterate_zero_apply, step]; rfl
    | succ k =>
      rw [Function.iterate_succ_apply, advance, step, advance_at_end]
      rfl
  | @next p gap c cs pieces skipped stops _ ih =>
    have step := next_of_piece skipped stops p
    rw [tokens_of_token step (beq_false_of_ne (take_kind_ne c cs))]
    cases k with
    | zero => rw [Function.iterate_zero_apply, step]; rfl
    | succ k =>
      rw [Function.iterate_succ_apply, advance, step, ih, List.getD_cons_succ, after_piece]

/-- The scanner stands behind the lexeme that it has read last, and at the end of the text once it has
    read the end token. -/
theorem Reads.position_iterate {s : Scanner} {pieces : List Piece} (reads : Reads s pieces) (k : Nat) :
    (advance^[k] s).position =
      s.position.after (if k ≤ pieces.length then Piece.characters (pieces.take k) else s.rest) := by
  induction reads generalizing k with
  | @ending p gap skipped =>
    cases k with
    | zero => rfl
    | succ k =>
      rw [Function.iterate_succ_apply, advance, next_of_ending skipped p, advance_at_end]
      rfl
  | @next p gap c cs pieces skipped stops _ ih =>
    cases k with
    | zero => rfl
    | succ k =>
      rw [Function.iterate_succ_apply, advance, next_of_piece skipped stops p, ih]
      simp only [List.length_cons, Nat.add_le_add_iff_right]
      split
      · simp [Piece.characters]
      · exact after_piece p gap c cs

end Scanner

/-- Every text is laid out in pieces.  There is one token for each lexeme, at the place behind all
    characters before it, and the end token behind the last character.  Reading one token after the
    other gives these and then the end token forever; the scanner stands behind the last lexeme that
    it has read, or at the end of the text once it has read the end token. -/
theorem tokenize_layout (source : String) :
    ∃ pieces : List Piece, Piece.Lay source.toList pieces ∧
      tokenize source =
        pieces.mapIdx (fun k piece => ⟨piece.lexeme.kind, piece.lexeme.text,
          .behind (Piece.characters (pieces.take k) ++ piece.gap)⟩) ++
        [.endOfFile (.behind source.toList)] ∧
      ∀ k,
        (Scanner.advance^[k] (.ofText source)).next.1 =
          (tokenize source).getD k (.endOfFile (.behind source.toList)) ∧
        (Scanner.advance^[k] (.ofText source)).position =
          .behind (if k ≤ pieces.length then Piece.characters (pieces.take k) else source.toList) := by
  obtain ⟨pieces, reads⟩ := Scanner.exists_reads .start source.toList
  have tokens := reads.tokens
  have tokenAt := reads.next_iterate
  have place := reads.position_iterate
  have placed : Scanner.tokenOf .start pieces = fun k piece => ⟨piece.lexeme.kind, piece.lexeme.text,
      .behind (Piece.characters (pieces.take k) ++ piece.gap)⟩ := by
    funext k piece
    rw [Scanner.tokenOf, Position.after_start]
  simp only [placed, Position.after_start] at tokens tokenAt place
  exact ⟨pieces, reads.lay, tokens, fun k => ⟨tokenAt k, place k⟩⟩

end ImpCompiler
