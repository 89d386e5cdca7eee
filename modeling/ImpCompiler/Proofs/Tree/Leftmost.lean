import Mathlib.Data.Prod.Lex
import Mathlib.Order.Bounds.Basic
import ImpCompiler.Proofs.Compilation.Blame

/-! # The leftmost token

An expression stands where its leftmost token does (`position_isLeast`).  Three orders have to agree for
that: the scanner counts on from token to token, the parser keeps the tokens of an expression in the
order in which it takes them, and the position of an expression is found along its left ends.

Only the condition of a loop that has none stands in no text; it is a single token. -/

namespace ImpCompiler

/-! ## The order of places -/

/-- Places are compared by their lines, and on one line by their columns. -/
def Position.key (p : Position) : ℕ ×ₗ ℕ :=
  toLex (p.line, p.column)

theorem Position.key_lt_after (p : Position) {text : List Char} (some : text ≠ []) :
    p.key < (p.after text).key := by
  have longer := List.length_pos_iff.mpr some
  refine Prod.Lex.toLex_lt_toLex.mpr ?_
  obtain below | ⟨line, column⟩ := p.after_cases text
  · exact .inl below
  · exact .inr ⟨line.symm, by omega⟩

/-- Each of the tokens stands further on than those before it. -/
def InOrder (tokens : List Token) : Prop :=
  tokens.Pairwise fun s t => s.position.key < t.position.key

/-- A token stands at a place that some of the text leads to. -/
theorem Scanner.Reads.exists_after {s : Scanner} {pieces : List Piece} (reads : Reads s pieces) {t : Token}
    (member : t ∈ s.tokensAfter []) : ∃ front, t.position = s.position.after front := by
  obtain rfl | ⟨_, front, _, _, _, place⟩ := reads.stands member
  · exact ⟨s.rest, rfl⟩
  · exact ⟨front, place⟩

theorem Scanner.Reads.inOrder {s : Scanner} {pieces : List Piece} (reads : Reads s pieces) :
    InOrder (s.tokensAfter []) := by
  induction reads with
  | @ending p gap skipped =>
    rw [tokensAfter_of_end (next_of_ending skipped p) rfl]
    exact List.pairwise_singleton _ _
  | @next p gap c cs pieces skipped stops further ih =>
    rw [tokens_of_token (next_of_piece skipped stops p) (beq_false_of_ne (take_kind_ne c cs))]
    refine List.pairwise_cons.mpr ⟨fun t member => ?_, ih⟩
    -- at least the lexeme of the first token lies between the two
    obtain ⟨front, place⟩ := further.exists_after member
    obtain ⟨more, source⟩ := Lexeme.take_source_cons c cs
    have between : (Lexeme.take c cs).1.source ++ front ≠ [] := by simp [source]
    rw [place, ← Position.after_append]
    exact Position.key_lt_after _ between

theorem inOrder_tokenize (source : String) : InOrder (tokenize source) := by
  obtain ⟨pieces, reads⟩ := Scanner.exists_reads .start source.toList
  exact reads.inOrder

/-! ## Expressions within expressions -/

mutual

/-- An expression and all expressions within it. -/
def Expr.parts : Expr → List Expr
  | .binary left op right => .binary left op right :: (left.parts ++ right.parts)
  | .unary op operand => .unary op operand :: operand.parts
  | .literal value => [.literal value]
  | .name var => [.name var]
  | .assign target value => .assign target value :: value.parts
  | .call callee arguments => .call callee arguments :: Expr.listParts arguments
  | .group inner => .group inner :: inner.parts

def Expr.listParts : List Expr → List Expr
  | [] => []
  | e :: es => e.parts ++ Expr.listParts es

end

mutual

/-- An expression within another one keeps some of its tokens, in the same order. -/
theorem Expr.tokens_sublist : (e : Expr) → ∀ part ∈ e.parts, part.tokens.Sublist e.tokens
  | .binary left op right => by
    simp only [parts, tokens, List.forall_mem_cons, List.forall_mem_append]
    refine ⟨List.Sublist.refl _, fun part member => ?_, fun part member => ?_⟩
    · exact (left.tokens_sublist part member).trans (List.sublist_append_left _ _)
    · exact ((right.tokens_sublist part member).cons op).trans (List.sublist_append_right _ _)
  | .unary op operand => by
    simp only [parts, tokens, List.forall_mem_cons]
    exact ⟨List.Sublist.refl _, fun part member => (operand.tokens_sublist part member).cons op⟩
  | .literal value => by simp [parts]
  | .name var => by simp [parts]
  | .assign target value => by
    simp only [parts, tokens, List.forall_mem_cons]
    exact ⟨List.Sublist.refl _, fun part member => (value.tokens_sublist part member).cons target⟩
  | .call callee arguments => by
    simp only [parts, tokens, List.forall_mem_cons]
    exact ⟨List.Sublist.refl _, fun part member => (listTokens_sublist arguments part member).cons callee⟩
  | .group inner => by
    simp only [parts, tokens, List.forall_mem_cons]
    exact ⟨List.Sublist.refl _, inner.tokens_sublist⟩

theorem Expr.listTokens_sublist : (es : List Expr) →
    ∀ part ∈ Expr.listParts es, part.tokens.Sublist (Expr.listTokens es)
  | [] => by simp [listParts]
  | e :: es => by
    simp only [listParts, listTokens, List.forall_mem_append]
    refine ⟨fun part member => ?_, fun part member => ?_⟩
    · exact (e.tokens_sublist part member).trans (List.sublist_append_left _ _)
    · exact (listTokens_sublist es part member).trans (List.sublist_append_right _ _)

end

/-- If the tokens of an expression are in order, then it stands at the first place of them all. -/
theorem Expr.isLeast_of_inOrder {e : Expr} (ordered : InOrder e.tokens) :
    IsLeast {place | ∃ t ∈ e.tokens, t.position.key = place} e.position.key := by
  obtain ⟨first, rest, split, place⟩ := e.exists_tokens_eq_cons
  rw [split] at ordered ⊢
  rw [← place]
  refine ⟨⟨first, List.mem_cons_self, rfl⟩, ?_⟩
  rintro _ ⟨t, member, rfl⟩
  obtain rfl | later := List.mem_cons.mp member
  · exact le_refl _
  · exact le_of_lt ((List.pairwise_cons.mp ordered).1 t later)

/-! ## Expressions within statements -/

mutual

/-- The expressions of a statement that are not within other expressions, at any depth. -/
def Stmt.values : Stmt → List Expr
  | .expression value => [value]
  | .print value => [value]
  | .declare _ initial => initial.toList
  | .block body => Stmt.listValues body
  | .ifElse test yes no => test :: (yes.values ++ Stmt.optionalValues no)
  | .whileLoop test body => test :: body.values
  | .forLoop initial test step body =>
    Stmt.optionalValues initial ++ test.toList ++ step.toList ++ body.values
  | .function _ _ body => Stmt.listValues body
  | .ret _ value => value.toList
  | .brk _ => []

def Stmt.listValues : List Stmt → List Expr
  | [] => []
  | s :: ss => s.values ++ Stmt.listValues ss

def Stmt.optionalValues : Option Stmt → List Expr
  | none => []
  | some s => s.values

end

/-- The expressions that occur in statements, at any depth. -/
def Stmt.listExprs (statements : List Stmt) : List Expr :=
  (Stmt.listValues statements).flatMap Expr.parts

/-- The expression keeps tokens of `ts`, in the same order, or else is the condition of a loop that has
    none. -/
def Expr.ReadFrom (ts : List Token) (e : Expr) : Prop :=
  e = Stmt.always ∨ e.tokens.Sublist ts

theorem Expr.ReadFrom.mono {ts us : List Token} {e : Expr} (read : e.ReadFrom ts) (more : ts.Sublist us) :
    e.ReadFrom us :=
  read.imp_right fun kept => kept.trans more

theorem readFrom_mono {ts us : List Token} {es : List Expr} (read : ∀ e ∈ es, e.ReadFrom ts)
    (more : ts.Sublist us) : ∀ e ∈ es, e.ReadFrom us :=
  fun e member => (read e member).mono more

theorem Stmt.desugarFor_readFrom {initial : Option Stmt} {test step : Option Expr} {body : Stmt}
    {ts : List Token} (read : ∀ e ∈ (Stmt.forLoop initial test step body).values, e.ReadFrom ts) :
    ∀ e ∈ (Stmt.desugarFor initial test step body).values, e.ReadFrom ts := by
  simp only [values, List.forall_mem_append] at read
  obtain ⟨⟨⟨first, tested⟩, stepped⟩, repeated⟩ := read
  have condition : (test.getD Stmt.always).ReadFrom ts := by
    cases test with
    | none => exact .inl rfl
    | some e => exact tested e List.mem_cons_self
  cases initial <;> cases step <;>
    simp_all [desugarFor, values, listValues, optionalValues, or_imp]

namespace Grammar

/-- What a phrase keeps of its spelling `ts`. -/
def Phrase.Keeps : Phrase → List Token → Prop
  | .primary e, ts | .operand e, ts | .arithmetic e, ts | .comparison e, ts | .expression e, ts =>
    e.tokens.Sublist ts
  | .argumentList es, ts | .arguments es, ts => (Expr.listTokens es).Sublist ts
  | .parameterList _, _ | .parameters _, _ => True
  | .clause _ e, ts | .variable _ e, ts => ∀ value ∈ e.toList, value.ReadFrom ts
  | .effect e, ts => e.ReadFrom ts
  | .initial st, ts => ∀ e ∈ Stmt.optionalValues st, e.ReadFrom ts
  | .statement st _, ts | .declaration st _, ts => ∀ e ∈ st.values, e.ReadFrom ts
  | .body ss, ts => ∀ e ∈ Stmt.listValues ss, e.ReadFrom ts

theorem Derives.keeps {p : Phrase} {ts : List Token} (derived : Derives p ts) : p.Keeps ts := by
  induction derived with
  | literal kind | name kind =>
    rw [Phrase.Keeps, Expr.tokens]
  | primary _ ih | operand _ ih | arithmetic _ ih | comparison _ ih | someArguments _ _ ih
  | variableInitial _ ih | variableDeclaration _ ih | statement _ ih => exact ih
  -- an expression takes tokens between those of its parts, or leaves them out
  | group _ _ _ ih | call _ _ _ _ ih | sign _ _ ih | assigned _ _ _ ih =>
    simp only [Phrase.Keeps, Expr.tokens] at ih ⊢
    grind
  | joined _ _ _ ih₁ ih₂ | compared _ _ _ ih₁ ih₂ =>
    rw [Phrase.Keeps, Expr.tokens]
    exact ih₁.append (ih₂.cons_cons _)
  | lastArgument _ ih =>
    simpa [Phrase.Keeps, Expr.listTokens] using ih
  | nextArgument _ _ _ ih₁ ih₂ =>
    rw [Phrase.Keeps, Expr.listTokens]
    exact ih₁.append (ih₂.cons _)
  | noArguments => exact List.Sublist.refl _
  | lastParameter | nextParameter | noParameters | someParameters => trivial
  | noClause | unset | noInitial | brk | emptyBody =>
    simp [Phrase.Keeps, Stmt.values, Stmt.optionalValues, Stmt.listValues]
  -- a statement takes the expressions of its parts, which have read less
  | effect _ _ ih => exact .inr (ih.trans (by grind))
  | someClause _ _ _ ih | set _ _ _ _ _ ih | print _ _ _ ih =>
    simp only [Phrase.Keeps, Stmt.values, Option.toList_some, List.forall_mem_singleton]
    exact .inr (ih.trans (by grind))
  | effectInitial _ ih | effectStatement _ ih =>
    simp only [Phrase.Keeps, Stmt.optionalValues, Stmt.values, List.forall_mem_singleton]
    exact ih
  | ret _ _ ih | block _ _ _ ih | function _ _ _ _ _ _ _ _ _ ih =>
    simp only [Phrase.Keeps, Stmt.values] at ih ⊢
    exact readFrom_mono ih (by grind)
  | ifThen _ _ _ _ _ ih₁ ih₂ =>
    simp only [Phrase.Keeps, Stmt.values, Stmt.optionalValues, List.append_nil, List.forall_mem_cons]
    exact ⟨.inr (ih₁.trans (by grind)), readFrom_mono ih₂ (by grind)⟩
  | whileLoop _ _ _ _ _ ih₁ ih₂ =>
    simp only [Phrase.Keeps, Stmt.values, List.forall_mem_cons]
    exact ⟨.inr (ih₁.trans (by grind)), readFrom_mono ih₂ (by grind)⟩
  | ifElse _ _ _ _ _ _ _ ih₁ ih₂ ih₃ =>
    simp only [Phrase.Keeps, Stmt.values, Stmt.optionalValues, List.forall_mem_cons, List.forall_mem_append]
    exact ⟨.inr (ih₁.trans (by grind)), readFrom_mono ih₂ (by grind), readFrom_mono ih₃ (by grind)⟩
  | forLoop _ _ _ _ _ _ ih₁ ih₂ ih₃ ih₄ =>
    refine Stmt.desugarFor_readFrom ?_
    simp only [Stmt.values, List.forall_mem_append]
    exact ⟨⟨⟨readFrom_mono ih₁ (by grind), readFrom_mono ih₂ (by grind)⟩, readFrom_mono ih₃ (by grind)⟩,
      readFrom_mono ih₄ (by grind)⟩
  | nextInBody _ _ ih₁ ih₂ =>
    simp only [Phrase.Keeps, Stmt.listValues, List.forall_mem_append]
    exact ⟨readFrom_mono ih₁ (by grind), readFrom_mono ih₂ (by grind)⟩

theorem Spells.readFrom {ts : List Token} {ss : List Stmt} (spells : Spells ts ss) :
    ∀ e ∈ Stmt.listValues ss, e.ReadFrom ts := by
  induction spells with
  | done => simp [Stmt.listValues]
  | stray _ _ _ ih => exact readFrom_mono ih (List.sublist_cons_self _ _)
  | next _ first _ ih =>
    simp only [Stmt.listValues, List.forall_mem_append]
    exact ⟨readFrom_mono first.keeps (List.sublist_append_left _ _),
      readFrom_mono ih (List.sublist_append_right _ _)⟩

end Grammar

/-- The expressions of a program that has been read keep tokens of the input, in the same order. -/
theorem readFrom_of_parseTokens {tokens : List Token} {statements : List Stmt}
    (parsed : parseTokens tokens = .ok statements) :
    ∀ e ∈ Stmt.listValues statements, e.ReadFrom tokens := by
  obtain ⟨rest, run⟩ := program_of_parseTokens parsed
  obtain ⟨used, lost, _, rfl, split, spelled, _⟩ := Parser.statements_spell _ [] _ run
  rw [inside_closeTokens] at split
  have front : used.Sublist (Parser.inside tokens) := split ▸ List.sublist_append_left used lost
  exact readFrom_mono spelled.readFrom (front.trans (List.takeWhile_sublist _))

/-- In a program that a text spells, every expression, at any depth, stands where one of the tokens that
    it keeps does, and none of these stands further left or further up. -/
theorem position_isLeast {source : String} {statements : List Stmt}
    (parsed : parseSource source = .ok statements) {e : Expr} (occurs : e ∈ Stmt.listExprs statements) :
    IsLeast {place | ∃ t ∈ e.tokens, t.position.key = place} e.position.key := by
  obtain ⟨value, stands, part⟩ := List.mem_flatMap.mp occurs
  have kept := value.tokens_sublist e part
  refine Expr.isLeast_of_inOrder ?_
  obtain rfl | read := readFrom_of_parseTokens parsed value stands
  · exact (List.pairwise_singleton _ _).sublist kept
  · exact (inOrder_tokenize source).sublist (kept.trans read)

/-- A parenthesis is not kept, and so the value that is assigned stands behind it. -/
theorem position_isLeast_chain :
    let source := "x =\n (a - 1) < f(-b);"
    ∃ statements e, parseSource source = .ok statements ∧ e ∈ Stmt.listExprs statements ∧
      e.tokens.map Token.text = ["a", "-", "1", "<", "f", "-", "b"] ∧ e.position = ⟨2, 3⟩ ∧
      IsLeast {place | ∃ t ∈ e.tokens, t.position.key = place} (Position.key ⟨2, 3⟩) := by
  intro source
  have read : (parseSource source).toOption.bind (fun statements =>
      (Stmt.listExprs statements)[1]?.map fun e => (e.tokens.map Token.text, e.position)) =
        some (["a", "-", "1", "<", "f", "-", "b"], ⟨2, 3⟩) := by
    decide +kernel
  obtain ⟨statements, some, found⟩ := Option.bind_eq_some_iff.mp read
  obtain ⟨e, occurs, same⟩ := Option.map_eq_some_iff.mp found
  obtain ⟨texts, place⟩ := Prod.mk.inj same
  cases parsed : parseSource source with
  | error _ =>
    rw [parsed] at some
    cases some
  | ok program =>
    rw [parsed] at some
    cases some
    have member := List.mem_of_getElem? occurs
    have least := position_isLeast parsed member
    rw [place] at least
    exact ⟨statements, e, rfl, member, texts, place, least⟩

end ImpCompiler
