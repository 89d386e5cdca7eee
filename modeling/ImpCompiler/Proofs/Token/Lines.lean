import Mathlib.Data.List.Forall2
import Mathlib.Data.List.TakeWhile
import ImpCompiler.Token.Scanner

/-! # Scanning line by line

A newline ends every gap and every lexeme but a string.  So if no string is left open, then the tokens
of two texts with a newline between them are those of the first and those of the second
(`tokensAfter_append_of_closed`).  Where the second text stands shows in the places of its tokens and
nowhere else (`tokensAfter_related`): they are further down by the lines of the first text
(`tokenize_append_lines`). -/

namespace ImpCompiler

/-! ## Stopping -/

section stopping

variable {accepts : Char → Bool}

theorem takeWhile_append_of_stop {x : Char} (stops : accepts x = false) (cs ds : List Char) :
    (cs ++ x :: ds).takeWhile accepts = cs.takeWhile accepts := by
  induction cs with
  | nil => simp [stops]
  | cons c cs ih => simp only [List.cons_append, List.takeWhile_cons, ih]

theorem dropWhile_append_of_stop {x : Char} (stops : accepts x = false) (cs ds : List Char) :
    (cs ++ x :: ds).dropWhile accepts = cs.dropWhile accepts ++ x :: ds := by
  induction cs with
  | nil => simp [stops]
  | cons c cs ih =>
    simp only [List.cons_append, List.dropWhile_cons, ih]
    split <;> rfl

/-- What stops within a text stops there whatever follows the text. -/
theorem takeWhile_dropWhile_append {cs rest : List Char} {x : Char}
    (stopped : cs.dropWhile accepts = x :: rest) (ds : List Char) :
    (cs ++ ds).takeWhile accepts = cs.takeWhile accepts ∧
      (cs ++ ds).dropWhile accepts = x :: rest ++ ds := by
  induction cs with
  | nil => cases stopped
  | cons c cs ih =>
    simp only [List.cons_append, List.dropWhile_cons, List.takeWhile_cons] at stopped ⊢
    split at stopped
    · rename_i accepted
      simp [accepted, ih stopped]
    · rename_i rejected
      cases stopped
      simp [rejected]

end stopping

/-! ## Gaps -/

/-- A newline behind a gap belongs to the gap, and a newline behind a lexeme changes nothing in front
    of the lexeme. -/
theorem skipGap_append (inComment : Bool) (p : Position) (cs ds : List Char) :
    skipGap inComment p (cs ++ '\n' :: ds) =
      match skipGap inComment p cs with
      | (_, []) => skipGap false ((p.after cs).next '\n') ds
      | (q, c :: rest) => (q, c :: (rest ++ '\n' :: ds)) := by
  induction cs generalizing inComment p with
  | nil => cases inComment <;> simp [skipGap, isBlank]
  | cons c cs ih =>
    have head : ((cs ++ '\n' :: ds).head? == some '/') = (cs.head? == some '/') := by
      cases cs <;> rfl
    rw [List.cons_append, skipGap, skipGap, head]
    split
    · exact ih _ _
    split
    · exact ih _ _
    split
    · exact ih _ _
    · rfl

/-! ## Lexemes -/

theorem number_append (cs ds : List Char) :
    Lexeme.number (cs ++ '\n' :: ds) =
      ((Lexeme.number cs).1, (Lexeme.number cs).2 ++ '\n' :: ds) := by
  have stops : Char.isDigit '\n' = false := rfl
  simp only [Lexeme.number, takeWhile_append_of_stop stops, dropWhile_append_of_stop stops]
  cases cs.dropWhile Char.isDigit with
  | nil => rfl
  | cons c more =>
    by_cases point : c = '.'
    · subst point
      cases more with
      | nil => rfl
      | cons d more =>
        have fraction := takeWhile_append_of_stop stops (d :: more) ds
        have behind := dropWhile_append_of_stop stops (d :: more) ds
        rw [List.cons_append] at fraction behind
        simp only [List.cons_append, fraction, behind]
        split <;> rfl
    · simp [point]

theorem word_append (cs ds : List Char) :
    Lexeme.word (cs ++ '\n' :: ds) = ((Lexeme.word cs).1, (Lexeme.word cs).2 ++ '\n' :: ds) := by
  have stops : Lexeme.isWordPart '\n' = false := rfl
  simp only [Lexeme.word, takeWhile_append_of_stop stops, dropWhile_append_of_stop stops]

theorem quoted_append {cs rest : List Char} {quote : Char}
    (closed : cs.dropWhile (· != '"') = quote :: rest) (ds : List Char) :
    Lexeme.quoted (cs ++ ds) = ((Lexeme.quoted cs).1, (Lexeme.quoted cs).2 ++ ds) := by
  obtain ⟨content, behind⟩ := takeWhile_dropWhile_append closed ds
  simp only [Lexeme.quoted, content, behind, closed]
  rfl

theorem quoted_of_open {cs : List Char} (opened : cs.dropWhile (· != '"') = []) :
    Lexeme.quoted cs = (⟨.unknown, '"' :: cs.takeWhile (· != '"'), Lexeme.unterminated⟩, []) := by
  simp only [Lexeme.quoted, opened]

/-- The lexeme at the front of a text stays what it is if a newline follows the text, or else it is a
    string that is not closed. -/
theorem take_append (c : Char) (cs ds : List Char) :
    Lexeme.take c (cs ++ '\n' :: ds) =
        ((Lexeme.take c cs).1, (Lexeme.take c cs).2 ++ '\n' :: ds) ∨
      (c = '"' ∧ cs.dropWhile (· != '"') = []) := by
  unfold Lexeme.take
  cases Lexeme.punctuation? c with
  | some kind => exact .inl rfl
  | none =>
    dsimp only
    cases Lexeme.relation? c with
    | some alone =>
      left
      cases cs with
      | nil => rfl
      | cons d cs =>
        by_cases equals : d = '='
        · subst equals
          rfl
        · simp [equals]
    | none =>
      dsimp only
      by_cases digit : c.isDigit = true
      · rw [if_pos digit, if_pos digit]
        exact .inl (number_append (c :: cs) ds)
      rw [if_neg digit, if_neg digit]
      by_cases start : Lexeme.isWordStart c = true
      · rw [if_pos start, if_pos start]
        exact .inl (word_append (c :: cs) ds)
      rw [if_neg start, if_neg start]
      by_cases quote : (c == '"') = true
      · rw [if_pos quote, if_pos quote]
        cases closed : cs.dropWhile (· != '"') with
        | nil => exact .inr ⟨eq_of_beq quote, rfl⟩
        | cons quote rest => exact .inl (quoted_append closed _)
      · rw [if_neg quote, if_neg quote]
        exact .inl rfl

theorem number_source (cs : List Char) :
    (Lexeme.number cs).1.source ++ (Lexeme.number cs).2 = cs := by
  have whole := List.takeWhile_append_dropWhile (p := Char.isDigit) (l := cs)
  unfold Lexeme.number
  dsimp only
  split
  · rename_i d more rest
    have fraction := List.takeWhile_append_dropWhile (p := Char.isDigit) (l := d :: more)
    rw [rest] at whole
    split
    · simp only [Lexeme.verbatim, List.append_assoc, List.cons_append, fraction, whole]
    · exact rest ▸ whole
  · exact whole

theorem quoted_source (cs : List Char) :
    (Lexeme.quoted cs).1.source ++ (Lexeme.quoted cs).2 = '"' :: cs := by
  have whole := List.takeWhile_append_dropWhile (p := (· != '"')) (l := cs)
  unfold Lexeme.quoted
  dsimp only
  split
  · rename_i opened
    rw [opened, List.append_nil] at whole
    simp only [whole, List.append_nil]
  · rename_i closed
    rw [closed] at whole
    simp only [List.cons_append, List.append_assoc, List.nil_append, whole]

/-- A lexeme and the text behind it are the text that it is taken from. -/
theorem take_source (c : Char) (cs : List Char) :
    (Lexeme.take c cs).1.source ++ (Lexeme.take c cs).2 = c :: cs := by
  unfold Lexeme.take
  split
  · rfl
  split
  · split <;> rfl
  split
  · exact number_source (c :: cs)
  split
  · exact List.takeWhile_append_dropWhile
  split
  · rename_i quote
    rw [quoted_source, eq_of_beq quote]
  · rfl

/-- A word is a keyword, a truth value or a name. -/
theorem Kind.ofWord_ne {kind : Kind} (other : kind ∉ [.keyword, .boolLiteral, .identifier]) (word : String) :
    Kind.ofWord word ≠ kind := by
  rintro rfl
  apply other
  unfold Kind.ofWord
  split
  · decide
  split <;> decide

theorem number_kind_ne (cs : List Char) : (Lexeme.number cs).1.kind ≠ .endOfFile := by
  unfold Lexeme.number
  dsimp only
  split
  · split <;> nofun
  · nofun

theorem quoted_kind_ne (cs : List Char) : (Lexeme.quoted cs).1.kind ≠ .endOfFile := by
  unfold Lexeme.quoted
  dsimp only
  split <;> nofun

/-- No lexeme is an end token. -/
theorem take_kind_ne (c : Char) (cs : List Char) : (Lexeme.take c cs).1.kind ≠ .endOfFile := by
  have punctuation : Lexeme.punctuation? c ≠ some .endOfFile := by
    unfold Lexeme.punctuation?
    split <;> nofun
  have relation : Lexeme.relation? c ≠ some .endOfFile := by
    unfold Lexeme.relation?
    split <;> nofun
  unfold Lexeme.take
  split
  · rename_i kind found
    exact fun ends => punctuation (found.trans (congrArg some ends))
  split
  · rename_i alone found
    split
    · nofun
    · exact fun ends => relation (found.trans (congrArg some ends))
  split
  · exact number_kind_ne _
  split
  · exact Kind.ofWord_ne (by decide) _
  split
  · exact quoted_kind_ne _
  · nofun

/-! ## Tokens -/

theorem skipGap_after (inComment : Bool) (p : Position) (cs : List Char) :
    (skipGap inComment p cs).1.after (skipGap inComment p cs).2 = p.after cs := by
  induction cs generalizing inComment p with
  | nil => rfl
  | cons c cs ih =>
    rw [skipGap]
    split
    · exact ih _ _
    split
    · exact ih _ _
    split
    · exact ih _ _
    · rfl

namespace Scanner

variable {s behind : Scanner} {t : Token}

theorem tokensAfter_of_end (step : s.next = (t, behind)) (ends : t.isEnd = true) (read : List Token) :
    s.tokensAfter read = (t :: read).reverse := by
  rw [tokensAfter]
  simp [step, ends]

theorem tokensAfter_of_token (step : s.next = (t, behind)) (inside : t.isEnd = false)
    (read : List Token) : s.tokensAfter read = behind.tokensAfter (t :: read) := by
  rw [tokensAfter]
  simp [step, inside]

theorem tokensAfter_eq_append (s : Scanner) (read : List Token) :
    s.tokensAfter read = read.reverse ++ s.tokensAfter [] := by
  cases step : s.next with
  | mk t behind =>
    cases ends : t.isEnd with
    | true =>
      rw [tokensAfter_of_end step ends, tokensAfter_of_end step ends]
      simp
    | false =>
      have shorter := rest_length_lt_of_next step (by simp [ends])
      rw [tokensAfter_of_token step ends, tokensAfter_of_token step ends,
        tokensAfter_eq_append behind (t :: read), tokensAfter_eq_append behind [t]]
      simp
termination_by s.rest.length

theorem tokens_of_token (step : s.next = (t, behind)) (inside : t.isEnd = false) :
    s.tokensAfter [] = t :: behind.tokensAfter [] := by
  rw [tokensAfter_of_token step inside, tokensAfter_eq_append]
  rfl

theorem tokensAfter_congr {s' : Scanner} (same : s.next = s'.next) :
    s.tokensAfter [] = s'.tokensAfter [] := by
  cases step : s.next with
  | mk t behind =>
    have step' := same.symm.trans step
    cases ends : t.isEnd with
    | true => rw [tokensAfter_of_end step ends, tokensAfter_of_end step' ends]
    | false => rw [tokens_of_token step ends, tokens_of_token step' ends]

theorem next_congr {p q : Position} {cs ds : List Char} (same : skipGap false p cs = skipGap false q ds) :
    next ⟨cs, p⟩ = next ⟨ds, q⟩ := by
  simp only [next, same]

theorem next_of_gap {p q : Position} {cs : List Char} (gap : skipGap false p cs = (q, [])) :
    next ⟨cs, p⟩ = (.endOfFile q, ⟨[], q⟩) := by
  simp only [next, gap]

theorem next_of_lexeme {p q : Position} {cs rest : List Char} {c : Char}
    (gap : skipGap false p cs = (q, c :: rest)) :
    next ⟨cs, p⟩ = (⟨(Lexeme.take c rest).1.kind, (Lexeme.take c rest).1.text, q⟩,
      ⟨(Lexeme.take c rest).2, q.after (Lexeme.take c rest).1.source⟩) := by
  simp only [next, gap]

/-- The tokens of a text that is not blank: the first one, and those behind it. -/
theorem tokens_of_lexeme {p q : Position} {cs rest : List Char} {c : Char}
    (gap : skipGap false p cs = (q, c :: rest)) :
    tokensAfter ⟨cs, p⟩ [] = ⟨(Lexeme.take c rest).1.kind, (Lexeme.take c rest).1.text, q⟩ ::
      tokensAfter ⟨(Lexeme.take c rest).2, q.after (Lexeme.take c rest).1.source⟩ [] :=
  tokens_of_token (next_of_lexeme gap) (beq_false_of_ne (take_kind_ne c rest))

/-- Where nothing but a gap is left, only the end token is. -/
theorem tokens_of_gap {p : Position} {cs : List Char} (gap : (skipGap false p cs).2 = []) :
    tokensAfter ⟨cs, p⟩ [] = [.endOfFile (skipGap false p cs).1] :=
  tokensAfter_of_end (next_of_gap (Prod.ext rfl gap)) rfl []

/-- A newline behind a gap starts a text of its own. -/
theorem tokens_of_gap_append {p : Position} {cs : List Char} (gap : (skipGap false p cs).2 = [])
    (ds : List Char) :
    tokensAfter ⟨cs ++ '\n' :: ds, p⟩ [] = tokensAfter ⟨ds, (p.after cs).next '\n'⟩ [] := by
  refine tokensAfter_congr (next_congr ?_)
  rw [skipGap_append, show skipGap false p cs = (_, []) from Prod.ext rfl gap]

/-- A string that is not closed is one token, and the last one. -/
theorem tokens_of_open (p : Position) {cs : List Char} (opened : cs.dropWhile (· != '"') = []) :
    ∃ q, tokensAfter ⟨'"' :: cs, p⟩ [] = [⟨.unknown, Lexeme.unterminated, p⟩, .endOfFile q] := by
  have gap : skipGap false p ('"' :: cs) = (p, '"' :: cs) := rfl
  have lexeme : Lexeme.take '"' cs = Lexeme.quoted cs := rfl
  rw [tokens_of_lexeme gap, lexeme, quoted_of_open opened]
  exact ⟨_, congrArg _ (tokens_of_gap rfl)⟩

end Scanner

/-- The token of a string that is not closed. -/
def Token.isUnterminated (t : Token) : Bool :=
  t.is .unknown Lexeme.unterminated

/-- A scanner at the end of a text: a gap is left, or a string that is not closed. -/
def Scanner.Ends (s : Scanner) : Prop :=
  (skipGap false s.position s.rest).2 = [] ∨
    ∃ cs, s.rest = '"' :: cs ∧ cs.dropWhile (· != '"') = []

/-- Scanning a text reads the same tokens if a newline follows, until the text ends. -/
theorem tokensAfter_append (p : Position) (cs ds : List Char) :
    ∃ front tail q, (∀ t ∈ front, t.isEnd = false) ∧ Scanner.Ends ⟨tail, q⟩ ∧
      q.after tail = p.after cs ∧
      Scanner.tokensAfter ⟨cs, p⟩ [] = front ++ Scanner.tokensAfter ⟨tail, q⟩ [] ∧
      Scanner.tokensAfter ⟨cs ++ '\n' :: ds, p⟩ [] =
        front ++ Scanner.tokensAfter ⟨tail ++ '\n' :: ds, q⟩ [] := by
  have skipped := skipGap_append false p cs ds
  have place := skipGap_after false p cs
  have gap_le := skipGap_length_le false p cs
  cases gap : skipGap false p cs with
  | mk q rest =>
    rw [gap] at skipped place gap_le
    cases rest with
    | nil => exact ⟨[], cs, p, nofun, .inl (by rw [gap]), rfl, rfl, rfl⟩
    | cons c rest =>
      obtain kept | ⟨quote, opened⟩ := take_append c rest ds
      -- the lexeme ends before the newline: it is taken, and less of the text is left
      · have shorter := Nat.lt_of_lt_of_le (Lexeme.take_length_lt c rest) gap_le
        obtain ⟨front, tail, r, inside, ends, after, alone, followed⟩ :=
          tokensAfter_append (q.after (Lexeme.take c rest).1.source) (Lexeme.take c rest).2 ds
        let first : Token := ⟨(Lexeme.take c rest).1.kind, (Lexeme.take c rest).1.text, q⟩
        refine ⟨first :: front, tail, r, ?_, ends, ?_, ?_, ?_⟩
        · exact List.forall_mem_cons.mpr ⟨beq_false_of_ne (take_kind_ne c rest), inside⟩
        · rw [after, ← Position.after_append, take_source, place]
        · rw [Scanner.tokens_of_lexeme gap, alone]
          rfl
        · rw [Scanner.tokens_of_lexeme skipped, kept, followed]
          rfl
      -- the string would run over the newline: here the text ends
      · subst quote
        refine ⟨[], '"' :: rest, q, nofun, .inr ⟨rest, rfl, opened⟩, place, ?_, ?_⟩
        · exact Scanner.tokensAfter_congr (Scanner.next_congr gap)
        · exact Scanner.tokensAfter_congr (Scanner.next_congr skipped)
termination_by cs.length

/-- The tokens of a text end with an end token, which is the only one. -/
theorem tokensAfter_eq (p : Position) (cs : List Char) :
    ∃ front q, (∀ t ∈ front, t.isEnd = false) ∧
      Scanner.tokensAfter ⟨cs, p⟩ [] = front ++ [Token.endOfFile q] := by
  obtain ⟨front, tail, q, inside, ends, _, tokens, _⟩ := tokensAfter_append p cs []
  obtain gap | ⟨ds, rfl, opened⟩ := ends
  · exact ⟨front, _, inside, by rw [tokens, Scanner.tokens_of_gap gap]⟩
  · obtain ⟨r, last⟩ := Scanner.tokens_of_open q opened
    refine ⟨front ++ [⟨.unknown, Lexeme.unterminated, q⟩], r, ?_, by rw [tokens, last]; simp⟩
    exact List.forall_mem_append.mpr ⟨inside, by simp [Token.isEnd]⟩

/-- If all strings are closed, then a text behind a newline is scanned as if it stood alone. -/
theorem tokensAfter_append_of_closed (p : Position) (cs ds : List Char)
    (closed : ∀ t ∈ Scanner.tokensAfter ⟨cs, p⟩ [], t.isUnterminated = false) :
    Scanner.tokensAfter ⟨cs ++ '\n' :: ds, p⟩ [] =
      (Scanner.tokensAfter ⟨cs, p⟩ []).dropLast ++
        Scanner.tokensAfter ⟨ds, (p.after cs).next '\n'⟩ [] := by
  obtain ⟨front, tail, q, _, ends, place, alone, followed⟩ := tokensAfter_append p cs ds
  rw [alone] at closed
  rw [alone, followed, ← place]
  obtain gap | ⟨text, rfl, opened⟩ := ends
  · rw [Scanner.tokens_of_gap gap, List.dropLast_concat, Scanner.tokens_of_gap_append gap]
  · obtain ⟨r, last⟩ := Scanner.tokens_of_open q opened
    rw [last] at closed
    have unclosed := closed ⟨.unknown, Lexeme.unterminated, q⟩ (by simp)
    cases unclosed

/-! ## Positions -/

section related

variable {R : Position → Position → Prop} (keeps : ∀ p q c, R p q → R (p.next c) (q.next c))

/-- Tokens of the same kind and text, at related places. -/
structure Token.Related (R : Position → Position → Prop) (t t' : Token) : Prop where
  kind : t.kind = t'.kind
  text : t.text = t'.text
  position : R t.position t'.position

include keeps

theorem after_related {p q : Position} (related : R p q) (cs : List Char) : R (p.after cs) (q.after cs) := by
  induction cs generalizing p q with
  | nil => exact related
  | cons c cs ih => exact ih (keeps p q c related)

theorem skipGap_related (inComment : Bool) {p q : Position} (related : R p q) (cs : List Char) :
    R (skipGap inComment p cs).1 (skipGap inComment q cs).1 ∧
      (skipGap inComment p cs).2 = (skipGap inComment q cs).2 := by
  induction cs generalizing inComment p q with
  | nil => exact ⟨related, rfl⟩
  | cons c cs ih =>
    have further := fun b => ih b (keeps p q c related)
    rw [skipGap, skipGap]
    split
    · exact further _
    split
    · exact further _
    split
    · exact further _
    · exact ⟨related, rfl⟩

/-- Only the places of tokens depend on where a text stands. -/
theorem tokensAfter_related {p q : Position} (related : R p q) (cs : List Char) :
    List.Forall₂ (Token.Related R) (Scanner.tokensAfter ⟨cs, p⟩ [])
      (Scanner.tokensAfter ⟨cs, q⟩ []) := by
  obtain ⟨place, same⟩ := skipGap_related keeps false related cs
  have gap_le := skipGap_length_le false p cs
  cases gap : skipGap false p cs with
  | mk p' rest =>
    cases gap' : skipGap false q cs with
    | mk q' rest' =>
      rw [gap, gap'] at place same
      rw [gap] at gap_le
      cases same
      cases rest with
      | nil =>
        rw [Scanner.tokensAfter_of_end (Scanner.next_of_gap gap) rfl,
          Scanner.tokensAfter_of_end (Scanner.next_of_gap gap') rfl]
        exact .cons ⟨rfl, rfl, place⟩ .nil
      | cons c rest =>
        have shorter := Nat.lt_of_lt_of_le (Lexeme.take_length_lt c rest) gap_le
        rw [Scanner.tokens_of_lexeme gap, Scanner.tokens_of_lexeme gap']
        exact .cons ⟨rfl, rfl, place⟩
          (tokensAfter_related (after_related keeps place _) (Lexeme.take c rest).2)
termination_by cs.length

end related

/-- The token without its place. -/
def Token.unplaced (t : Token) : Token :=
  .synthetic t.kind t.text

theorem tokensAfter_unplaced (p q : Position) (cs : List Char) :
    (Scanner.tokensAfter ⟨cs, p⟩ []).map Token.unplaced =
      (Scanner.tokensAfter ⟨cs, q⟩ []).map Token.unplaced := by
  have related := @tokensAfter_related (fun _ _ => True) (fun _ _ _ _ => trivial) p q trivial cs
  rw [← List.forall₂_eq_eq_eq, List.forall₂_map_left_iff, List.forall₂_map_right_iff]
  refine related.imp fun t t' same => ?_
  rw [Token.unplaced, Token.unplaced, same.kind, same.text]

/-! ## Texts -/

theorem tokenize_eq (text : String) :
    ∃ front q, (∀ t ∈ front, t.isEnd = false) ∧
      tokenize text = front ++ [Token.endOfFile q] :=
  tokensAfter_eq .start text.toList

theorem tokenize_ne_nil (text : String) : tokenize text ≠ [] := by
  obtain ⟨front, q, _, tokens⟩ := tokenize_eq text
  simp [tokens]

/-- The tokens of a text, apart from their places, are those of its lines. -/
theorem tokenize_append_unplaced (a b : String) (closed : ∀ t ∈ tokenize a, t.isUnterminated = false) :
    (tokenize (a ++ "\n" ++ b)).map Token.unplaced =
      ((tokenize a).dropLast ++ tokenize b).map Token.unplaced := by
  have text : (a ++ "\n" ++ b).toList = a.toList ++ '\n' :: b.toList := by simp
  rw [tokenize, Scanner.ofText, text, tokensAfter_append_of_closed _ _ _ closed, List.map_append,
    List.map_append, tokensAfter_unplaced _ .start]
  rfl

/-- A newline at the end adds nothing, also where a string is not closed. -/
theorem tokenize_newline_unplaced (a : String) :
    (tokenize (a ++ "\n")).map Token.unplaced = (tokenize a).map Token.unplaced := by
  have text : (a ++ "\n").toList = a.toList ++ ['\n'] := by simp
  obtain ⟨front, tail, q, _, ends, _, alone, followed⟩ := tokensAfter_append .start a.toList []
  rw [tokenize, tokenize, Scanner.ofText, Scanner.ofText, text, alone, followed, List.map_append,
    List.map_append]
  obtain gap | ⟨cs, rfl, opened⟩ := ends
  · rw [Scanner.tokens_of_gap_append gap, Scanner.tokens_of_gap gap, Scanner.tokens_of_gap rfl]
    rfl
  · have opened' : (cs ++ ['\n']).dropWhile (· != '"') = [] := by
      rw [List.dropWhile_append_of_pos (List.dropWhile_eq_nil_iff.mp opened)]
      rfl
    obtain ⟨r, last⟩ := Scanner.tokens_of_open q opened
    obtain ⟨r', last'⟩ := Scanner.tokens_of_open q opened'
    rw [List.cons_append, last, last']
    rfl

/-! ## Lines -/

/-- The place `n` lines further down, in the same column. -/
def Position.lowered (n : Nat) (p : Position) : Position :=
  ⟨p.line + n, p.column⟩

/-- The token `n` lines further down. -/
def Token.lowered (n : Nat) (t : Token) : Token :=
  ⟨t.kind, t.text, t.position.lowered n⟩

theorem Position.next_lowered (n : Nat) (p : Position) (c : Char) :
    (p.lowered n).next c = (p.next c).lowered n := by
  unfold next
  split
  · rw [lowered, lowered, Nat.add_right_comm]
  · rfl

/-- Every newline leads to the next line. -/
theorem Position.line_after (p : Position) (cs : List Char) : (p.after cs).line = p.line + cs.count '\n' := by
  induction cs generalizing p with
  | nil => rfl
  | cons c cs ih =>
    rw [after_cons, ih, next]
    split
    · rename_i newline
      rw [newline, List.count_cons_self, Nat.add_right_comm, Nat.add_assoc]
    · rename_i other
      rw [List.count_cons_of_ne other]

theorem Position.after_newline (cs : List Char) :
    (start.after cs).next '\n' = start.lowered (1 + cs.count '\n') := by
  rw [next, if_pos rfl, line_after, lowered, Nat.add_comm 1 (cs.count '\n')]
  rfl

/-- A text that stands further down has the same tokens further down. -/
theorem tokensAfter_lowered (n : Nat) (p : Position) (cs : List Char) :
    Scanner.tokensAfter ⟨cs, p.lowered n⟩ [] =
      (Scanner.tokensAfter ⟨cs, p⟩ []).map (Token.lowered n) := by
  have keeps (p q : Position) (c : Char) (down : q = p.lowered n) : q.next c = (p.next c).lowered n := by
    rw [down, Position.next_lowered]
  have related := tokensAfter_related keeps (rfl : p.lowered n = p.lowered n) cs
  symm
  rw [← List.forall₂_eq_eq_eq, List.forall₂_map_left_iff]
  refine related.imp fun t t' same => ?_
  rw [Token.lowered, same.kind, same.text, ← same.position]

/-- If all strings of a text are closed, then its tokens stay what they are, and where they are, in front of a
    newline and another text.  The tokens of the other text are further down by the lines of the first. -/
theorem tokenize_append_lines (a b : String) (closed : ∀ t ∈ tokenize a, t.isUnterminated = false) :
    ∃ front ending, tokenize a = front ++ [Token.endOfFile ending] ∧
      tokenize (a ++ "\n" ++ b) =
        front ++ (tokenize b).map (Token.lowered (1 + a.toList.count '\n')) := by
  have text : (a ++ "\n" ++ b).toList = a.toList ++ '\n' :: b.toList := by simp
  obtain ⟨front, ending, _, tokens⟩ := tokenize_eq a
  have both := tokensAfter_append_of_closed .start a.toList b.toList closed
  rw [Position.after_newline, tokensAfter_lowered] at both
  refine ⟨front, ending, tokens, ?_⟩
  rw [tokenize, Scanner.ofText, text, both]
  change (tokenize a).dropLast ++ _ = _
  rw [tokens, List.dropLast_concat]
  rfl

/-- The first text has a string over two lines and ends within a comment.  The second starts with a quote,
    which is not closed. -/
theorem tokenize_append_lines_comment :
    let a := "\"\n\" 1//\""
    let b := "\""
    (∀ t ∈ tokenize a, t.isUnterminated = false) ∧
      tokenize (a ++ "\n" ++ b) =
        [⟨.stringLiteral, "\n", ⟨1, 1⟩⟩, ⟨.intLiteral, "1", ⟨2, 3⟩⟩,
          ⟨.unknown, Lexeme.unterminated, ⟨3, 1⟩⟩, .endOfFile ⟨3, 2⟩] := by
  intro a b
  have closed : ∀ t ∈ tokenize a, t.isUnterminated = false := by decide +kernel
  have first : tokenize a = [⟨.stringLiteral, "\n", ⟨1, 1⟩⟩, ⟨.intLiteral, "1", ⟨2, 3⟩⟩] ++
      [.endOfFile ⟨2, 7⟩] := by decide +kernel
  have second : tokenize b = [⟨.unknown, Lexeme.unterminated, ⟨1, 1⟩⟩, .endOfFile ⟨1, 2⟩] := by
    decide +kernel
  have lines : a.toList.count '\n' = 1 := by decide +kernel
  obtain ⟨front, ending, tokens, both⟩ := tokenize_append_lines a b closed
  obtain ⟨rfl, _⟩ := List.append_inj' (first.symm.trans tokens) rfl
  refine ⟨closed, ?_⟩
  rw [both, second, lines]
  rfl

end ImpCompiler
