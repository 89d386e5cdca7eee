import ImpCompiler.CommandLine.Session
import ImpCompiler.Proofs.Tree.Concatenation

/-! # What a session keeps

A session keeps the lines that define functions, as text, and puts them in front of every line after
them.  If each of them was read whole, then the text means what the session announced, and a later line
means behind it what it means alone (`parseSource_sessionProgram`).

A line whose end was not read is kept as well.  What it leaves open takes in the lines after it
(`sessionProgram_takes_in_line`). -/

namespace ImpCompiler

/-! ## Kept lines -/

/-- The lines that a session keeps after a request. -/
def Request.keptAfter (kept : List String) : Request → List String
  | .command .reset => []
  | .entry line (.definitions _) => kept ++ [line]
  | _ => kept

/-- The definitions of a session that keeps the lines. -/
def definitionsOf (kept : List String) : String :=
  kept.foldl sessionProgram ""

/-- The lines that a session keeps once it has read `lines`, unless it has ended by then. -/
def keptLines (kept : List String) : List String → Option (List String)
  | [] => some kept
  | line :: lines =>
    let request := Request.ofLine (definitionsOf kept) line
    if request.isQuit then none else keptLines (request.keptAfter kept) lines

theorem definitionsOf_keptAfter (kept : List String) (request : Request) :
    definitionsOf (request.keptAfter kept) = request.definitionsAfter (definitionsOf kept) := by
  cases request with
  | nothing => rfl
  | command command => cases command <;> rfl
  | entry line entry =>
    cases entry with
    | definitions count => exact List.foldl_append
    | _ => rfl

theorem definitionsOf_cons (line : String) (kept : List String) :
    definitionsOf (line :: kept) = line ++ "\n" ++ definitionsOf kept := by
  have behind (text : String) : kept.foldl sessionProgram text = text ++ definitionsOf kept := by
    induction kept generalizing text with
    | nil => simp [definitionsOf]
    | cons line kept ih =>
      rw [definitionsOf, List.foldl_cons, List.foldl_cons, ih, ih (sessionProgram "" line)]
      simp [sessionProgram, String.append_assoc]
  rw [definitionsOf, List.foldl_cons, behind]
  simp [sessionProgram]

/-- Behind the lines that it has read, a session goes on with the definitions of the lines that it
    keeps. -/
theorem runSession_append {m : Type → Type} [Monad m] [LawfulMonad m] [Files m]
    {kept kept' lines : List String} (session : keptLines kept lines = some kept') :
    ∃ answers : Report → m Report, ∀ written more,
      runSession (definitionsOf kept) written (lines ++ more) =
        answers written >>= fun written => runSession (definitionsOf kept') written more := by
  induction lines generalizing kept with
  | nil =>
    cases session
    exact ⟨pure, fun written more => by rw [pure_bind, List.nil_append]⟩
  | cons line lines ih =>
    simp only [keptLines] at session
    split at session
    · cases session
    · rename_i goesOn
      obtain ⟨answers, goes⟩ := ih session
      refine ⟨fun written => do
        answers (written.append (← (Request.ofLine (definitionsOf kept) line).report (definitionsOf kept))),
        fun written more => ?_⟩
      rw [List.cons_append, runSession, bind_assoc]
      refine bind_congr fun report => ?_
      rw [if_neg goesOn, ← definitionsOf_keptAfter, goes]

/-! ## What is announced -/

/-- The functions that a kept line announces. -/
def announced (line : String) : List Stmt :=
  match parseSource line with
  | .ok statements => statements
  | .error _ => []

/-- Whether the line has been read to its end. -/
def readWhole (line : String) : Bool :=
  (firstFailure (tokenize line)).isNone && (tokenize line).all fun t => !t.isUnterminated

/-- A line that defines functions and nothing else, and is announced as such. -/
structure DefinesFunctions (line : String) : Prop where
  parsed : parseSource line = .ok (announced line)
  functions : (announced line).all Stmt.isFunction = true
  entered : ∃ definitions, Entry.ofLine definitions line = .definitions (announced line).length

theorem definesFunctions_of_entry {definitions line : String} {count : Nat}
    (entry : Entry.ofLine definitions line = .definitions count) : DefinesFunctions line := by
  have entered := entry
  rw [Entry.ofLine] at entry
  split at entry
  · cases entry
  · rename_i statements parsed
    have same : announced line = statements := by simp only [announced, parsed]
    split at entry
    · rename_i functions
      rw [Bool.and_eq_true] at functions
      split at entry
      · cases entry
      · cases entry
        rw [← same] at parsed functions entered
        exact ⟨parsed, functions.2, definitions, entered⟩
    · cases entry

theorem entry_of_ofLine {definitions line typed : String} {entry : Entry}
    (asked : Request.ofLine definitions line = .entry typed entry) :
    Entry.ofLine definitions typed = entry := by
  simp only [Request.ofLine] at asked
  generalize Text.trim (typedText line) = text at asked
  by_cases blank : text = ""
  · rw [if_pos blank] at asked
    cases asked
  rw [if_neg blank] at asked
  by_cases colon : text.startsWith ":" = true
  · rw [if_pos colon] at asked
    cases asked
  · rw [if_neg colon] at asked
    injection asked with same entered
    rw [← same, entered]

theorem definesFunctions_of_keptAfter {definitions typed : String} {kept : List String}
    (define : ∀ line ∈ kept, DefinesFunctions line) :
    ∀ line ∈ (Request.ofLine definitions typed).keptAfter kept, DefinesFunctions line := by
  cases asked : Request.ofLine definitions typed with
  | nothing => exact define
  | command command =>
    cases command with
    | reset => nofun
    | _ => exact define
  | entry line entry =>
    cases entry with
    | definitions count =>
      have defines := definesFunctions_of_entry (entry_of_ofLine asked)
      exact List.forall_mem_append.mpr ⟨define, List.forall_mem_singleton.mpr defines⟩
    | _ => exact define

theorem definesFunctions_of_keptLines {kept kept' lines : List String}
    (session : keptLines kept lines = some kept') (define : ∀ line ∈ kept, DefinesFunctions line) :
    ∀ line ∈ kept', DefinesFunctions line := by
  induction lines generalizing kept with
  | nil =>
    cases session
    exact define
  | cons line lines ih =>
    simp only [keptLines] at session
    split at session
    · cases session
    · exact ih session (definesFunctions_of_keptAfter define)

/-! ## Tokens of kept lines -/

theorem inside_tokenize (text : String) : Parser.inside (tokenize text) = (tokenize text).dropLast := by
  obtain ⟨front, q, within, tokens⟩ := tokenize_eq text
  rw [tokens, Parser.inside_append within, List.dropLast_concat]
  exact List.append_nil front

/-- The tokens of the lines, without the ends of the lines. -/
def keptTokens (kept : List String) : List Token :=
  kept.flatMap fun line => (tokenize line).dropLast

theorem isUnterminated_of_readWhole {line : String} (whole : readWhole line = true) :
    ∀ t ∈ tokenize line, t.isUnterminated = false := by
  rw [readWhole, Bool.and_eq_true, List.all_eq_true] at whole
  exact fun t member => by simpa using whole.2 t member

theorem tokenize_definitionsOf {kept : List String} (whole : ∀ line ∈ kept, readWhole line = true)
    (text : String) :
    (tokenize (definitionsOf kept ++ text)).map Token.unplaced =
      (keptTokens kept ++ tokenize text).map Token.unplaced := by
  induction kept with
  | nil => simp [definitionsOf, keptTokens]
  | cons line kept ih =>
    obtain ⟨first, further⟩ := List.forall_mem_cons.mp whole
    rw [definitionsOf_cons, String.append_assoc,
      tokenize_append_unplaced _ _ (isUnterminated_of_readWhole first), List.map_append, ih further,
      ← List.map_append, keptTokens, keptTokens, List.flatMap_cons, List.append_assoc]

/-- A line that was read whole spells the functions that it announces. -/
theorem spells_of_readWhole {line : String} (defines : DefinesFunctions line)
    (whole : readWhole line = true) : Grammar.Spells (tokenize line).dropLast (announced line) := by
  obtain ⟨rest, run⟩ := program_of_parseTokens defines.parsed
  obtain ⟨used, lost, _, same, split, spelled, complete⟩ := Parser.statements_spell _ [] _ run
  rw [readWhole, Bool.and_eq_true, Option.isNone_iff_eq_none] at whole
  rw [inside_closeTokens, inside_tokenize, complete whole.1, List.append_nil] at split
  rw [split, same]
  exact spelled

theorem parseTokens_keptTokens {kept : List String} (define : ∀ line ∈ kept, DefinesFunctions line)
    (whole : ∀ line ∈ kept, readWhole line = true) (text : String) :
    parseTokens (keptTokens kept ++ tokenize text) =
      (parseSource text).map (kept.flatMap announced ++ ·) := by
  induction kept with
  | nil =>
    rw [keptTokens, List.flatMap_nil, List.nil_append, ← parseSource]
    cases parseSource text <;> rfl
  | cons line kept ih =>
    obtain ⟨defines, define⟩ := List.forall_mem_cons.mp define
    obtain ⟨first, whole⟩ := List.forall_mem_cons.mp whole
    have some : keptTokens kept ++ tokenize text ≠ [] := by simp [tokenize_ne_nil]
    -- what follows the line may start with an `else`, but the line ends with a function
    have spells := spells_of_readWhole defines first
    rw [keptTokens, List.flatMap_cons, List.append_assoc, ← keptTokens,
      parseTokens_spells_append spells some (.inl defines.functions), ih define whole]
    cases parseSource text <;> simp [Except.map]

/-! ## Programs of a session -/

/-- The statements without the places of their tokens. -/
def unplaced (statements : List Stmt) : List Stmt :=
  statements.map (Stmt.relabel Token.unplaced)

theorem unplaced_append (ss rs : List Stmt) : unplaced (ss ++ rs) = unplaced ss ++ unplaced rs :=
  List.map_append

theorem parseSource_definitionsOf {kept : List String} (define : ∀ line ∈ kept, DefinesFunctions line)
    (whole : ∀ line ∈ kept, readWhole line = true) {text : String} {statements : List Stmt}
    (parsed : parseSource text = .ok statements) :
    ∃ program, parseSource (definitionsOf kept ++ text) = .ok program ∧
      unplaced program = unplaced (kept.flatMap announced ++ statements) := by
  have behind := parseTokens_keptTokens define whole text
  rw [parsed] at behind
  refine parseTokens_relabel relabelling_unplaced ?_ behind
  rw [closeTokens_append _ (tokenize_ne_nil text), closeTokens_tokenize, closeTokens_tokenize,
    tokenize_definitionsOf whole]

theorem parseSource_newline {text : String} {statements : List Stmt}
    (parsed : parseSource text = .ok statements) :
    ∃ program, parseSource (text ++ "\n") = .ok program ∧ unplaced program = unplaced statements := by
  refine parseTokens_relabel relabelling_unplaced ?_ parsed
  rw [closeTokens_tokenize, closeTokens_tokenize, tokenize_newline_unplaced]

theorem parseSource_empty : parseSource "" = .ok [] := by
  rw [parseSource, tokenize, Scanner.ofText, Scanner.tokens_of_gap rfl]
  rfl

/-- If a session keeps only lines that were read whole, then its definitions are the functions that it
    has announced, and the program for a line is these and then the program of the line alone. -/
theorem parseSource_sessionProgram {m : Type → Type} [Monad m] [LawfulMonad m] [Files m]
    {lines kept : List String} (session : keptLines [] lines = some kept)
    (whole : ∀ line ∈ kept, readWhole line = true) :
    (∃ answers : Report → m Report, ∀ written more,
      runSession "" written (lines ++ more) =
        answers written >>= fun written => runSession (definitionsOf kept) written more) ∧
    (∀ line ∈ kept, DefinesFunctions line) ∧
    ∃ stored, parseSource (definitionsOf kept) = .ok stored ∧
      unplaced stored = unplaced (kept.flatMap announced) ∧
      ∀ line statements, parseSource line = .ok statements →
        ∃ program, parseSource (sessionProgram (definitionsOf kept) line) = .ok program ∧
          unplaced program = unplaced (stored ++ statements) := by
  have define := definesFunctions_of_keptLines session nofun
  obtain ⟨stored, parsed, same⟩ := parseSource_definitionsOf define whole parseSource_empty
  rw [String.append_empty] at parsed
  rw [List.append_nil] at same
  refine ⟨runSession_append session, define, stored, parsed, same, ?_⟩
  intro line statements alone
  -- the line may leave a string open: only its own end matters then, not what is behind it
  obtain ⟨behind, closed, same'⟩ := parseSource_newline alone
  obtain ⟨program, run, same''⟩ := parseSource_definitionsOf define whole closed
  rw [← String.append_assoc] at run
  refine ⟨program, run, ?_⟩
  rw [same'', unplaced_append, unplaced_append, same, same']

/-- The session forgets a function, keeps a line with a stray token and runs a program; the line behind
    that ends in a string that is not closed. -/
theorem parseSource_sessionProgram_reset :
    let kept := ["func f()\x7b\x7d ?"]
    let lines := ["func a()\x7b\x7d", ":r", "func f()\x7b\x7d ?", "f();"]
    let line := "screenit f(); \"open"
    keptLines [] lines = some kept ∧ (∀ line ∈ kept, readWhole line = true) ∧
      ∃ stored statements program, parseSource (definitionsOf kept) = .ok stored ∧
        parseSource line = .ok statements ∧
        parseSource (sessionProgram (definitionsOf kept) line) = .ok program ∧
        unplaced stored = unplaced (kept.flatMap announced) ∧
        unplaced program = unplaced (stored ++ statements) := by
  intro kept lines line
  have session : keptLines [] lines = some kept := by decide +kernel
  have whole : ∀ line ∈ kept, readWhole line = true := by decide +kernel
  obtain ⟨_, _, stored, parsed, same, goes⟩ :=
    @parseSource_sessionProgram InDirectory _ _ _ _ _ session whole
  have some : (parseSource line).toOption.isSome = true := by decide +kernel
  cases alone : parseSource line with
  | error e =>
    rw [alone] at some
    cases some
  | ok statements =>
    obtain ⟨program, run, same'⟩ := goes line statements alone
    exact ⟨session, whole, stored, statements, program, parsed, rfl, run, same, same'⟩

/-- A block and a string that are not closed: the lines are kept, and one function is announced for
    each, but the next line becomes a part of what they leave open. -/
theorem sessionProgram_takes_in_line :
    let opened := ["func f() \x7b\x7d \x7b", "func f() \x7b\x7d \""]
    let line := "screenit y;"
    opened.map (fun kept => keptLines [] [kept]) = opened.map (fun kept => some [kept]) ∧
      opened.map (fun kept => (announced kept).length) = [1, 1] ∧
      (parseSource line).toOption.map List.length = some 1 ∧
      opened.map (fun kept =>
        (parseSource (sessionProgram (definitionsOf [kept]) line)).toOption.map List.length) =
          [some 1, some 1] := by
  decide +kernel

end ImpCompiler
