import ImpCompiler.Proofs.Token.LongestMatch

/-! # Writing tokens down

Written down with a blank between any two of them, the tokens of a text are scanned again as the tokens
that they are, if none of them is unknown (`tokenize_spell`).

The only words of a pattern that go on over a blank are strings, and a string that is closed ends at its
quote.  So the longest match in a text is the longest match wherever a blank follows
(`LongestMatch.spaced`). -/

namespace ImpCompiler

/-! ## Spellings -/

/-- A token as it stands in a text: a string has its quotes. -/
def Token.spelling (t : Token) : String :=
  if t.kind = .stringLiteral then "\"" ++ t.text ++ "\"" else t.text

/-- Tokens as a text, with a blank between any two of them. -/
def spell (tokens : List Token) : String :=
  " ".intercalate (tokens.map Token.spelling)

/-- What stands behind a token in front of the others. -/
def spellBehind (tokens : List Token) : List Char :=
  if tokens = [] then [] else ' ' :: (spell tokens).toList

theorem spell_cons (t : Token) (tokens : List Token) :
    (spell (t :: tokens)).toList = t.spelling.toList ++ spellBehind tokens := by
  cases tokens with
  | nil => simp [spell, spellBehind]
  | cons u tokens => simp [spell, spellBehind]

/-! ## In front of a blank -/

/-- A text that is empty or starts with a blank. -/
def Spaced (text : List Char) : Prop :=
  ∀ c, text.head? = some c → c = ' '

theorem spaced_spellBehind (tokens : List Token) : Spaced (spellBehind tokens) := by
  intro c first
  unfold spellBehind at first
  split at first
  · cases first
  · cases first
    rfl

theorem Spaced.stops {text : List Char} (spaced : Spaced text) : Stops (· != ' ') text := by
  intro c first
  rw [spaced c first]
  rfl

/-- Only strings have blanks in them. -/
theorem blank_notMem {pattern : Pattern} (plain : pattern.leading ≠ .quote) {word : List Char}
    (member : word ∈ pattern.language) : ' ' ∉ word := by
  have digits {word : List Char} (member : word ∈ digits) : ' ' ∉ word := fun blank =>
    absurd ((mem_digits_iff.mp member).2 _ blank) (by decide)
  intro blank
  cases pattern with
  | float =>
    obtain ⟨whole, fraction, inWhole, inFraction, rfl⟩ := mem_float_iff.mp member
    simp [digits inWhole, digits inFraction] at blank
  | int => exact digits member blank
  | word =>
    obtain ⟨c, cs, rfl, letter, parts⟩ := mem_oneChar_mul_star_iff.mp member
    have part : IsLetter ' ' ∨ IsDigit ' ' := by
      obtain rfl | inside := List.mem_cons.mp blank
      · exact .inl letter
      · exact parts _ inside
    exact absurd ((isWordPart_iff ' ').mpr part) (by decide)
  | string => exact plain rfl
  | openString => exact plain rfl
  | _ =>
    simp only [Pattern.language, mem_anyOf, List.mem_cons, List.not_mem_nil, or_false] at member
    grind

/-- The longest match in a text is the longest match wherever a blank follows it, or nothing. -/
theorem LongestMatch.spaced {rest lexeme behind : List Char} {kind : Kind} {text : String}
    (found : LongestMatch rest lexeme kind text) (known : kind ≠ .unknown) (spaced : Spaced behind) :
    LongestMatch (lexeme ++ behind) lexeme kind text := by
  cases found with
  | unmatched starts absent => exact absurd rfl known
  | matched pattern member front longest only =>
    -- Strings may go on over a blank, but a closed one ends at its quote whatever follows.
    by_cases quote : pattern.leading = .quote
    · cases pattern with
      | string =>
        obtain ⟨content, within, rfl⟩ := mem_string_iff.mp member
        have again := longestMatch_string within behind
        rwa [← show Pattern.text .string ('"' :: content ++ ['"']) = String.ofList content by
          simp [Pattern.text]] at again
      | openString => exact absurd rfl known
      | _ => cases quote
    · refine longestMatch_of_leading member ⟨behind, rfl⟩ (fun other same word found isFront => ?_)
        (fun other _ => only other)
      have blankless := blank_notMem (same ▸ quote) found
      refine length_le_of_stops isFront (fun c inside => ?_) spaced.stops
      rw [bne_iff_ne]
      rintro rfl
      exact blankless inside

/-- The text starts no gap, also if something else stands behind its first lexeme. -/
theorem startsGap_spaced {lexeme rest behind : List Char} (some : lexeme ≠ [])
    (stops : startsGap (lexeme ++ rest) = false) (spaced : Spaced behind) :
    startsGap (lexeme ++ behind) = false := by
  obtain ⟨c, more, rfl⟩ := List.exists_cons_of_ne_nil some
  simp only [startsGap, List.cons_append, List.head?_cons, Option.any_some, Bool.or_eq_false_iff] at stops ⊢
  refine ⟨stops.1, ?_⟩
  -- A comment starts with two signs, and a lexeme of one sign has a blank behind it now.
  cases more with
  | nil =>
    cases behind with
    | nil => simp [List.isPrefixOf]
    | cons d behind => simp [List.isPrefixOf, spaced d rfl]
  | cons d more => simpa [List.isPrefixOf] using stops.2

/-! ## Tokens -/

/-- The token is read where it is spelled, if a blank follows or nothing. -/
structure Token.Legible (t : Token) : Prop where
  inside : t.isEnd = false
  stops : ∀ behind, Spaced behind → startsGap (t.spelling.toList ++ behind) = false
  longest : ∀ behind, Spaced behind →
    LongestMatch (t.spelling.toList ++ behind) t.spelling.toList t.kind t.text

/-- But for unknown tokens, the spelling of a token is what it was read from. -/
theorem Lexeme.Written.spelling {lexeme : Lexeme} (written : lexeme.Written)
    (known : lexeme.kind ≠ .unknown) (p : Position) :
    (⟨lexeme.kind, lexeme.text, p⟩ : Token).spelling.toList = lexeme.source := by
  cases written with
  | verbatim plain other inside => simp [Token.spelling, Lexeme.verbatim, other]
  | closed within => simp [Token.spelling]
  | opened within => exact absurd rfl known

theorem Lexeme.legible {c : Char} {cs : List Char} (stops : startsGap (c :: cs) = false)
    (known : (take c cs).1.kind ≠ .unknown) (p : Position) :
    Token.Legible ⟨(take c cs).1.kind, (take c cs).1.text, p⟩ := by
  have spelling := (take_written c cs).spelling known p
  obtain ⟨more, starts⟩ := take_source_cons c cs
  refine ⟨beq_false_of_ne (take_kind_ne c cs), fun behind spaced => ?_, fun behind spaced => ?_⟩
  · rw [← take_source c cs] at stops
    rw [spelling]
    exact startsGap_spaced (by rw [starts]; exact List.cons_ne_nil _ _) stops spaced
  · rw [spelling]
    exact (take_isLongest c cs).spaced known spaced

theorem Scanner.Reads.legible {s : Scanner} {pieces : List Piece} (reads : Reads s pieces)
    (known : ∀ t ∈ s.tokensAfter [], t.kind ≠ .unknown) :
    ∀ t ∈ s.tokensAfter [], t.isEnd = false → t.Legible := by
  induction reads with
  | @ending p gap skipped =>
    rw [tokensAfter_of_end (next_of_ending skipped p) rfl]
    intro t member inside
    cases List.mem_singleton.mp member
    cases inside
  | @next p gap c cs pieces skipped stops _ ih =>
    rw [tokens_of_token (next_of_piece skipped stops p) (beq_false_of_ne (take_kind_ne c cs))] at known ⊢
    obtain ⟨first, others⟩ := List.forall_mem_cons.mp known
    exact List.forall_mem_cons.mpr ⟨fun _ => Lexeme.legible stops first _, ih others⟩

/-! ## Texts -/

/-- A blank in front of a text changes the places of its tokens only. -/
theorem tokens_spellBehind (p q : Position) (tokens : List Token) :
    (Scanner.tokensAfter ⟨spellBehind tokens, p⟩ []).map Token.unplaced =
      (Scanner.tokensAfter ⟨(spell tokens).toList, q⟩ []).map Token.unplaced := by
  unfold spellBehind
  split
  · rename_i none
    subst none
    exact tokensAfter_unplaced p q _
  · have skipped : Scanner.next ⟨' ' :: (spell tokens).toList, p⟩ =
        Scanner.next ⟨(spell tokens).toList, p.next ' '⟩ := Scanner.next_congr rfl
    rw [Scanner.tokensAfter_congr skipped]
    exact tokensAfter_unplaced _ q _

/-- Legible tokens are read as they are, and nothing behind them, if what follows has no spelling. -/
theorem tokens_of_legible {front silent : List Token} (legible : ∀ t ∈ front, t.Legible)
    (nothing : spell silent = "") (p : Position) :
    (Scanner.tokensAfter ⟨(spell (front ++ silent)).toList, p⟩ []).map Token.unplaced =
      (front ++ [Token.endOfFile p]).map Token.unplaced := by
  induction front generalizing p with
  | nil =>
    rw [List.nil_append, nothing]
    exact congrArg _ (Scanner.tokens_of_gap rfl)
  | cons t front ih =>
    obtain ⟨first, others⟩ := List.forall_mem_cons.mp legible
    have spaced := spaced_spellBehind (front ++ silent)
    have step := takes_of_longestMatch .empty (first.stops _ spaced) (first.longest _ spaced) rfl p
    rw [List.nil_append] at step
    rw [List.cons_append, spell_cons, Scanner.tokens_of_token step first.inside, List.map_cons,
      tokens_spellBehind _ p, ih others p]
    rfl

/-- The tokens of a text are read again from their spelling with blanks between them, whether the end token
    is written down or not, if none of them is unknown. -/
theorem tokenize_spell (source : String) (known : ∀ t ∈ tokenize source, t.kind ≠ .unknown) :
    (tokenize (spell (tokenize source))).map Token.unplaced = (tokenize source).map Token.unplaced ∧
    (tokenize (spell (tokenize source).dropLast)).map Token.unplaced =
      (tokenize source).map Token.unplaced := by
  obtain ⟨pieces, reads⟩ := Scanner.exists_reads .start source.toList
  have readable := reads.legible known
  obtain ⟨front, q, inside, tokens⟩ := tokenize_eq source
  have legible : ∀ t ∈ front, t.Legible := fun t member => by
    refine readable t ?_ (inside t member)
    change t ∈ tokenize source
    rw [tokens]
    exact List.mem_append_left _ member
  have ending : spell [Token.endOfFile q] = "" := rfl
  have again := tokens_of_legible legible ending .start
  have again' := tokens_of_legible legible (rfl : spell [] = "") .start
  rw [List.append_nil] at again'
  rw [tokens, List.dropLast_concat]
  simp only [List.map_append] at again again' ⊢
  exact ⟨again, again'⟩

/-- Signs without blanks between them, and a string with a line break and what would be a comment. -/
theorem tokenize_spell_string :
    let source := "a==\"//\n\"=1.5"
    (∀ t ∈ tokenize source, t.kind ≠ .unknown) ∧
      spell (tokenize source).dropLast = "a == \"//\n\" = 1.5" ∧
      (tokenize "a == \"//\n\" = 1.5").map Token.unplaced = (tokenize source).map Token.unplaced := by
  intro source
  have known : ∀ t ∈ tokenize source, t.kind ≠ .unknown := by decide +kernel
  have spelled : spell (tokenize source).dropLast = "a == \"//\n\" = 1.5" := by decide +kernel
  have again := (tokenize_spell source known).2
  rw [spelled] at again
  exact ⟨known, spelled, again⟩

end ImpCompiler
