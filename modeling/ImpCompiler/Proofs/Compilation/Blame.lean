import ImpCompiler.Compilation
import ImpCompiler.Proofs.Token.Layout
import ImpCompiler.Proofs.Tree.Blame
import ImpCompiler.Proofs.Typing.Agreement
import ImpCompiler.Proofs.Typing.Blame

/-! # Errors stand at tokens

Whatever is reported about a source text, be it by the parser or by lowering, is reported at one of
its tokens, and at a character of the text (`compile_error_placed`).  Neither the end of the text is
blamed nor the condition that a loop without one is given.  Only what is wrong with a written module
has no place. -/

namespace ImpCompiler

/-! ## Places of tokens -/

/-- The place behind a text is further down, or further to the right on the same line. -/
theorem Position.after_cases (p : Position) (text : List Char) :
    p.line < (p.after text).line ∨
      (p.after text).line = p.line ∧ (p.after text).column = p.column + text.length := by
  induction text generalizing p with
  | nil => exact .inr ⟨rfl, rfl⟩
  | cons c text ih =>
    have further := ih (p.next c)
    rw [after_cons, List.length_cons]
    by_cases newline : c = '\n'
    · have line : (p.next c).line = p.line + 1 := by rw [next, if_pos newline]
      omega
    · have line : (p.next c).line = p.line := by rw [next, if_neg newline]
      have column : (p.next c).column = p.column + 1 := by rw [next, if_neg newline]
      omega

theorem Position.after_ne (p : Position) (c : Char) (text : List Char) : p.after (c :: text) ≠ p := by
  intro same
  have further := p.after_cases (c :: text)
  rw [same, List.length_cons] at further
  omega

/-- A token stands at a character of the text, unless it is the end token. -/
theorem Scanner.Reads.stands {s : Scanner} {pieces : List Piece} (reads : Reads s pieces) {t : Token}
    (member : t ∈ s.tokensAfter []) :
    t = .endOfFile (s.position.after s.rest) ∨
      t.isEnd = false ∧
        ∃ front c behind, s.rest = front ++ c :: behind ∧ t.position = s.position.after front := by
  induction reads with
  | @ending p gap skipped =>
    rw [tokensAfter_of_end (next_of_ending skipped p) rfl] at member
    exact .inl (List.mem_singleton.mp member)
  | @next p gap c cs pieces skipped stops _ ih =>
    have inside := beq_false_of_ne (take_kind_ne c cs)
    rw [tokens_of_token (next_of_piece skipped stops p) inside, List.mem_cons] at member
    obtain rfl | member := member
    · exact .inr ⟨inside, gap, c, cs, rfl, rfl⟩
    obtain last | ⟨inside, front, d, behind, split, place⟩ := ih member
    · rw [after_piece] at last
      exact .inl last
    · -- what is in front of the token now also has the piece before it
      refine .inr ⟨inside, gap ++ ((Lexeme.take c cs).1.source ++ front), d, behind, ?_, ?_⟩
      · have whole : (Lexeme.take c cs).1.source ++ (Lexeme.take c cs).2 = c :: cs := take_source c cs
        rw [← whole, show (Lexeme.take c cs).2 = front ++ d :: behind from split]
        simp only [List.append_assoc]
      · rw [place, Position.after_append, Position.after_append]

/-- `t` is a token of the text and not its end token.  It stands at a place of the text, and not where
    the text ends. -/
structure Token.StandsIn (t : Token) (source : String) : Prop where
  member : t ∈ tokenize source
  inside : t.isEnd = false
  real : t.position ≠ .synthetic
  beforeEnd : ∀ last ∈ tokenize source, last.isEnd = true → t.position ≠ last.position

theorem Token.standsIn_of_mem {t : Token} {source : String} (member : t ∈ tokenize source)
    (inside : t.isEnd = false) : t.StandsIn source := by
  obtain ⟨pieces, reads⟩ := Scanner.exists_reads .start source.toList
  obtain rfl | ⟨_, front, c, behind, split, place⟩ := reads.stands member
  · cases inside
  refine ⟨member, inside, ?_, ?_⟩
  · intro nowhere
    rw [place, Position.after_start] at nowhere
    have line := congrArg Position.line nowhere
    simp only [Position.behind, Position.synthetic] at line
    omega
  · intro last member' ends same
    obtain rfl | ⟨inside', _⟩ := reads.stands member'
    · -- at least the character of `t` lies between `t` and the end
      have ending : Position.start.after source.toList = (Position.start.after front).after (c :: behind) := by
        rw [show source.toList = front ++ c :: behind from split, Position.after_append]
      rw [place] at same
      exact Position.after_ne _ c behind (ending.symm.trans same.symm)
    · cases inside'.symm.trans ends

/-! ## Errors of lowering -/

/-- Lowering finds what the check finds, and may otherwise find the module malformed. -/
theorem checkProgram_of_lowerProgram {moduleName : String} {statements : List Stmt} {error : LoweringError}
    (failed : lowerProgram moduleName statements = .error error) :
    (∃ problem, error = .malformed problem) ∨ Typing.checkProgram statements = .error error := by
  obtain ⟨_, s, Γ, run, _⟩ | ⟨e, s, run, checked⟩ := (Lower.program_conforms moduleName statements).cases
  · rw [lowerProgram, run] at failed
    dsimp only at failed
    split at failed
    · cases failed
      exact .inl ⟨_, rfl⟩
    · cases failed
  · rw [lowerProgram, run] at failed
    cases failed
    exact .inr checked

/-! ## Errors of a compilation -/

theorem eq_error_of_map {ε α β : Type} {verdict : Except ε α} {f : α → β} {error : ε}
    (failed : verdict.map f = .error error) : verdict = .error error := by
  cases verdict with
  | ok a => cases failed
  | error e => exact congrArg Except.error (Except.error.inj failed)

/-- An error of the parser names a token of the text with its place.  So does an error of lowering,
    unless it says that the module is malformed. -/
theorem compile_error_placed {moduleName source : String} {e : CompileError}
    (failed : compile moduleName source = .error e) :
    (∃ (error : ParseError) (t : Token), e = .parse error ∧ t.StandsIn source ∧
      error.position = t.position ∧ error.found = t.text) ∨
    (∃ problem, e = .lowering (.malformed problem)) ∨
    ∃ (error : LoweringError) (t : Token), e = .lowering error ∧ t.StandsIn source ∧
      error.position? = some t.position := by
  rw [compile] at failed
  split at failed
  · rename_i error unread
    cases failed
    obtain ⟨t, member, inside, place, text⟩ := blamed_of_parseTokens unread
    exact .inl ⟨error, t, rfl, Token.standsIn_of_mem member inside, place, text⟩
  · rename_i statements parsed
    split at failed
    · rename_i error unlowered
      cases failed
      obtain ⟨problem, rfl⟩ | checked := checkProgram_of_lowerProgram unlowered
      · exact .inr (.inl ⟨problem, rfl⟩)
      · -- the trees were read from tokens of the text, and the check blames what is in the trees
        obtain ⟨t, ⟨member, inside⟩, place⟩ :=
          Typing.checkStmts_blames statements (over_of_parseTokens parsed) .start error checked
        exact .inr (.inr ⟨error, t, rfl, Token.standsIn_of_mem member inside, place⟩)
    · cases failed

/-- A loop without a condition is not blamed for the name in its body; and an expression that does not
    go on is noticed at the token behind it. -/
theorem compile_error_placed_loop :
    let loop := "for(;;)screenit y;"
    let unbound : LoweringError := .undefinedVariable "y" ⟨1, 17⟩
    let cut := "x = (;y;"
    let missing : ParseError := ⟨.expression, ⟨1, 6⟩, ";"⟩
    (compile "m" loop = .error (.lowering unbound) ∧
      ∃ t : Token, t.StandsIn loop ∧ t.position = ⟨1, 17⟩) ∧
    compile "m" cut = .error (.parse missing) ∧
      ∃ t : Token, t.StandsIn cut ∧ t.position = ⟨1, 6⟩ ∧ t.text = ";" := by
  intro loop unbound cut missing
  have unlowered : compile "m" loop = .error (.lowering unbound) :=
    eq_error_of_map (f := fun _ => ()) (by decide +kernel)
  have unread : compile "m" cut = .error (.parse missing) :=
    eq_error_of_map (f := fun _ => ()) (by decide +kernel)
  constructor
  · obtain ⟨_, _, other, _⟩ | ⟨_, other⟩ | ⟨error, t, same, stands, place⟩ := compile_error_placed unlowered
    · cases other
    · cases (CompileError.lowering.inj other : LoweringError.undefinedVariable "y" ⟨1, 17⟩ = .malformed _)
    · cases same
      exact ⟨unlowered, t, stands, (Option.some.inj place).symm⟩
  · obtain ⟨error, t, same, stands, place, text⟩ | ⟨_, other⟩ | ⟨_, _, other, _⟩ := compile_error_placed unread
    · cases same
      exact ⟨unread, t, stands, place.symm, text.symm⟩
    · cases other
    · cases other

end ImpCompiler
