import ImpCompiler.Proofs.Token.Lines
import ImpCompiler.Proofs.Tree.Relabelling

/-! # Programs one behind the other

Tokens that spell a program can stand in front of another program, unless that starts with an `else`:
then both are read, one behind the other (`parseTokens_spells_append`).  Tokens in which no statement
fails spell a program, so that parsing respects concatenation (`parseTokens_append`). -/

namespace ImpCompiler

/-! ## Reading with any number of steps -/

theorem relabelling_id : Relabelling id :=
  ⟨fun _ => rfl, fun _ => rfl, rfl⟩

namespace Parser

open Grammar

/-- Without a change of the tokens, what follows is the same. -/
theorem Follows.eq {α : Type} {f : α → α} {r r' : EStateM.Result ParseError (List Token) α}
    (follows : Follows id f r r') (unchanged : ∀ a, f a = a) : r = r' := by
  obtain ⟨a, rest, rfl, rfl⟩ | ⟨e, e', rest, rfl, rfl, same, _⟩ := follows.cases
  · rw [unchanged, List.map_id]
  · rw [List.map_id]
    cases same <;> rfl

/-- Steps that are left over change nothing. -/
theorem statements_eq_of_fuel {n m : Nat} (read : List Stmt) (rest : List Token)
    (fuel : 9 * rest.length + 8 ≤ n) (fuel' : 9 * rest.length + 8 ≤ m) :
    statements n read rest = statements m read rest := by
  have unchanged (ss : List Stmt) : ss.map (Stmt.relabel id) = ss := by
    rw [← Stmt.listRelabel_eq_map, Stmt.listRelabel_id]
  have follows := statements_follow relabelling_id n m read rest fuel fuel'
  rw [unchanged, List.map_id] at follows
  exact follows.eq unchanged

/-! ## Reading behind a program -/

/-- What has been read before stands in front of what is read. -/
theorem statements_behind (n : Nat) (read before : List Stmt) (rest : List Token) :
    statements n (read ++ before) rest =
      ((fun program => before.reverse ++ program) <$> statements n read) rest := by
  simp only [Functor.map, EStateM.map] at *
  induction n generalizing read rest with
  | zero => rfl
  | succ n ih =>
    cases rest with
    | nil => simp only [statements, List.reverse_append]
    | cons t behind =>
      simp only [statements, List.reverse_append]
      split
      · rfl
      split
      · exact ih read behind
      cases declaration n (t :: behind) with
      | ok st rest => exact ih (st :: read) rest
      | error e rest =>
        dsimp only
        split <;> rfl

end Parser

theorem closeTokens_append (ts : List Token) {us : List Token} (some : us ≠ []) :
    closeTokens (ts ++ us) = ts ++ closeTokens us := by
  rw [closeTokens, closeTokens, List.getLast?_append]
  cases found : us.getLast? with
  | none => exact absurd (List.getLast?_eq_none_iff.mp found) some
  | some last =>
    dsimp only [Option.some_or]
    split
    · rfl
    · rw [List.append_assoc]

theorem starts_closeTokens (p : Token → Bool) {ts : List Token} (some : ts ≠ []) :
    Grammar.starts p (closeTokens ts) = Grammar.starts p ts := by
  rw [closeTokens]
  cases ts with
  | nil => exact absurd rfl some
  | cons t ts =>
    split
    · split <;> rfl
    · rename_i none
      cases List.getLast?_eq_none_iff.mp none

/-- A program behind tokens that spell one is read as it is alone.  An `else` there would belong to the
    last statement in front of it, unless that is a function. -/
theorem parseTokens_spells_append {ts us : List Token} {ss : List Stmt} (spells : Grammar.Spells ts ss)
    (some : us ≠ [])
    (follows : ss.all Stmt.isFunction = true ∨ Grammar.starts Parser.isElse us = false) :
    parseTokens (ts ++ us) = (parseTokens us).map (ss ++ ·) := by
  rw [← starts_closeTokens _ some] at follows
  have fuel : 9 * ts.length + 3 ≤ Parser.steps (ts ++ closeTokens us) := by
    rw [Parser.steps, List.length_append]
    omega
  obtain ⟨m, enough, run⟩ := Parser.statements_append spells _ fuel [] (closeTokens us) follows
  have enough' : 9 * (closeTokens us).length + 8 ≤ m := by
    rw [Parser.steps, List.length_append] at enough
    omega
  -- the second program is read with the steps that are left, which are not those it has alone
  have alone : Parser.statements m [] (closeTokens us) = Parser.program (closeTokens us) :=
    Parser.statements_eq_of_fuel [] _ enough' (by rw [Parser.steps]; omega)
  rw [List.append_nil, ← List.nil_append ss.reverse, Parser.statements_behind, List.reverse_reverse] at run
  simp only [Functor.map, EStateM.map, alone] at run
  rw [parseTokens, parseTokens, closeTokens_append ts some, Parser.program, run]
  cases Parser.program (closeTokens us) <;> rfl

/-! ## Tokens in which no statement fails -/

/-- If no statement at the top fails, then all of them are read. -/
theorem Parser.statements_of_failedStatement (n : Nat) (read : List Stmt) (rest : List Token)
    (fuel : 9 * rest.length + 8 ≤ n) (whole : failedStatement n rest = none) :
    ∃ program rest', statements n read rest = .ok program rest' := by
  induction n generalizing read rest with
  | zero => omega
  | succ n ih =>
    cases rest with
    | nil => exact ⟨_, _, rfl⟩
    | cons t behind =>
      rw [List.length_cons] at fuel
      simp only [failedStatement] at whole
      simp only [statements]
      by_cases ends : t.isEnd = true
      · rw [if_pos ends]
        exact ⟨_, _, rfl⟩
      rw [if_neg ends] at whole ⊢
      by_cases stray : isStray t = true
      · rw [if_pos stray] at whole ⊢
        exact ih read behind (by omega) whole
      rw [if_neg stray] at whole ⊢
      cases attempt : declaration n (t :: behind) with
      | ok st middle =>
        have shorter := declaration_length_lt attempt
        rw [List.length_cons] at shorter
        rw [attempt] at whole
        exact ih (st :: read) middle (by omega) whole
      | error e middle =>
        rw [attempt] at whole
        cases whole

/-- Tokens in which no statement fails spell the program that is read. -/
theorem spells_of_firstFailure {tokens : List Token} (within : ∀ t ∈ tokens, t.isEnd = false)
    (whole : firstFailure tokens = none) :
    ∃ ss, parseTokens tokens = .ok ss ∧ Grammar.Spells tokens ss := by
  obtain ⟨program, rest, run⟩ := Parser.statements_of_failedStatement
    (Parser.steps (closeTokens tokens)) [] (closeTokens tokens) (by rw [Parser.steps]; omega) whole
  obtain ⟨used, lost, _, rfl, split, spelled, all⟩ := Parser.statements_spell _ [] _ run
  have front : Parser.inside tokens = tokens := by
    simpa [Parser.inside] using Parser.inside_append within []
  rw [inside_closeTokens, front, all whole, List.append_nil] at split
  exact ⟨program, by rw [parseTokens, Parser.program, run], split ▸ spelled⟩

/-- If no statement fails in the first tokens, then what follows is read as it is alone: the programs
    stand one behind the other, and the error is that of the second.  Only an `else` there would
    belong to what is in front of it. -/
theorem parseTokens_append {ts us : List Token} (within : ∀ t ∈ ts, t.isEnd = false)
    (whole : firstFailure ts = none) (follows : Grammar.starts Parser.isElse us = false) :
    ∃ ss, parseTokens ts = .ok ss ∧ parseTokens (ts ++ us) = (parseTokens us).map (ss ++ ·) := by
  obtain ⟨ss, parsed, spelled⟩ := spells_of_firstFailure within whole
  refine ⟨ss, parsed, ?_⟩
  by_cases empty : us = []
  · subst empty
    have nothing : parseTokens [] = .ok [] := rfl
    rw [List.append_nil, parsed, nothing, Except.map, List.append_nil]
  · exact parseTokens_spells_append spelled empty (.inr follows)

/-- A conditional that could still have an `else`, and behind it a declaration without a name. -/
theorem parseTokens_append_conditional :
    let x := Token.synthetic .identifier "x"
    let stop := Token.synthetic .semicolon ";"
    let test := [.synthetic .keyword "if", .synthetic .leftParen "(", x, .synthetic .rightParen ")", x, stop]
    let wrong := [.synthetic .keyword "var", stop, x, stop]
    firstFailure test = none ∧ Grammar.starts Parser.isElse wrong = false ∧
      parseTokens test = .ok [.ifElse (.name x) (.expression (.name x)) none] ∧
      parseTokens (test ++ wrong) = parseTokens wrong ∧ (parseTokens wrong).isOk = false := by
  intro x stop test wrong
  have whole : firstFailure test = none := rfl
  have follows : Grammar.starts Parser.isElse wrong = false := rfl
  obtain ⟨ss, parsed, both⟩ := parseTokens_append (by decide) whole follows
  exact ⟨whole, follows, rfl, both.trans rfl, rfl⟩

/-! ## Reading other tokens of the same kinds -/

/-- Tokens that differ in their places only are read alike: the programs differ in these places only, and
    so do the errors. -/
theorem parseTokens_alike {φ : Token → Token} (change : Relabelling φ) {ts ts' : List Token}
    (same : (closeTokens ts).map φ = (closeTokens ts').map φ) :
    (∃ ss ss', parseTokens ts = .ok ss ∧ parseTokens ts' = .ok ss' ∧
      ss'.map (Stmt.relabel φ) = ss.map (Stmt.relabel φ)) ∨
    ∃ e e' moved, parseTokens ts = .error e ∧ parseTokens ts' = .error e' ∧
      Parser.Moved φ e moved ∧ Parser.Moved φ e' moved := by
  have length : (closeTokens ts).length = (closeTokens ts').length := by
    rw [← List.length_map φ, same, List.length_map]
  have first := Parser.statements_follow change (Parser.steps (closeTokens ts))
    (Parser.steps (closeTokens ts)) [] (closeTokens ts)
    (by rw [Parser.steps]; omega) (by rw [Parser.steps]; omega)
  have second := Parser.statements_follow change (Parser.steps (closeTokens ts'))
    (Parser.steps (closeTokens ts)) [] (closeTokens ts')
    (by rw [Parser.steps]; omega) (by rw [Parser.steps]; omega)
  rw [same] at first
  obtain ⟨ss, _, read, image⟩ | ⟨e, moved, _, failed, image, at_e, _⟩ := first.cases <;>
    obtain ⟨ss', _, read', image'⟩ | ⟨e', moved', _, failed', image', at_e', _⟩ := second.cases
  · injection image.symm.trans image' with programs _
    refine .inl ⟨ss, ss', ?_, ?_, programs.symm⟩
    · rw [parseTokens, Parser.program, read]
    · rw [parseTokens, Parser.program, read']
  · cases image.symm.trans image'
  · cases image.symm.trans image'
  · injection image.symm.trans image' with errors _
    subst errors
    refine .inr ⟨e, e', moved, ?_, ?_, at_e, at_e'⟩
    · rw [parseTokens, Parser.program, failed]
    · rw [parseTokens, Parser.program, failed']

theorem parseTokens_relabel {φ : Token → Token} (change : Relabelling φ) {ts ts' : List Token}
    (same : (closeTokens ts).map φ = (closeTokens ts').map φ) {ss : List Stmt}
    (parsed : parseTokens ts = .ok ss) :
    ∃ ss', parseTokens ts' = .ok ss' ∧ ss'.map (Stmt.relabel φ) = ss.map (Stmt.relabel φ) := by
  obtain ⟨read, ss', done, done', programs⟩ | ⟨_, _, _, failed, _⟩ := parseTokens_alike change same
  · cases parsed.symm.trans done
    exact ⟨ss', done', programs⟩
  · cases parsed.symm.trans failed

/-! ## Reading the tokens of a text -/

theorem relabelling_unplaced : Relabelling Token.unplaced :=
  ⟨fun _ => rfl, fun _ => rfl, rfl⟩

theorem closeTokens_tokenize (text : String) : closeTokens (tokenize text) = tokenize text := by
  obtain ⟨front, q, _, tokens⟩ := tokenize_eq text
  simp [closeTokens, tokens, Token.endOfFile, Token.isEnd]

end ImpCompiler
