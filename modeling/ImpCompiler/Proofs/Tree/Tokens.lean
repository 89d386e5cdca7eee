import ImpCompiler.Proofs.Tree.Soundness

/-! # The tokens of trees

A tree that the parser has read consists of tokens of its input.  There is one exception: a loop
without a condition gets one that stands in no source text, `Stmt.always`, and gets it as the whole of
its condition.  `Stmt.Over P` says that a tree is made of tokens with `P`, up to that exception. -/

namespace ImpCompiler

/-! ## Expressions -/

mutual

/-- The tokens that an expression keeps, in the order in which they were read. -/
def Expr.tokens : Expr → List Token
  | .binary left op right => left.tokens ++ op :: right.tokens
  | .unary op operand => op :: operand.tokens
  | .literal value => [value]
  | .name var => [var]
  | .assign target value => target :: value.tokens
  | .call callee arguments => callee :: Expr.listTokens arguments
  | .group inner => inner.tokens

def Expr.listTokens : List Expr → List Token
  | [] => []
  | e :: es => e.tokens ++ Expr.listTokens es

end

def Expr.optionalTokens : Option Expr → List Token
  | none => []
  | some e => e.tokens

/-- Along the left ends of an expression one comes to its first token. -/
theorem Expr.exists_tokens_eq_cons (e : Expr) : ∃ t ts, e.tokens = t :: ts ∧ t.position = e.position := by
  fun_induction Expr.position e with
  | case1 left op right ih =>
    obtain ⟨t, ts, same, place⟩ := ih
    exact ⟨t, ts ++ op :: right.tokens, by rw [tokens, same, List.cons_append], place⟩
  | case2 inner ih =>
    rw [tokens]
    exact ih
  | case3 op operand => exact ⟨op, operand.tokens, by rw [tokens], rfl⟩
  | case4 value => exact ⟨value, [], by rw [tokens], rfl⟩
  | case5 var => exact ⟨var, [], by rw [tokens], rfl⟩
  | case6 target value => exact ⟨target, value.tokens, by rw [tokens], rfl⟩
  | case7 callee arguments => exact ⟨callee, Expr.listTokens arguments, by rw [tokens], rfl⟩

/-- An expression stands where one of its tokens does. -/
theorem Expr.position_mem (e : Expr) : ∃ t ∈ e.tokens, t.position = e.position := by
  obtain ⟨t, ts, split, same⟩ := e.exists_tokens_eq_cons
  exact ⟨t, split ▸ List.mem_cons_self, same⟩

/-! ## Statements -/

variable {P : Token → Prop}

mutual

/-- The tokens of a statement satisfy `P`; the condition of a loop may instead be `Stmt.always`. -/
def Stmt.Over (P : Token → Prop) : Stmt → Prop
  | .expression e => ∀ t ∈ e.tokens, P t
  | .print e => ∀ t ∈ e.tokens, P t
  | .declare var initial => P var ∧ ∀ t ∈ Expr.optionalTokens initial, P t
  | .block body => Stmt.listOver P body
  | .ifElse test yes no => (∀ t ∈ test.tokens, P t) ∧ yes.Over P ∧ Stmt.optionalOver P no
  | .whileLoop test body => (test = Stmt.always ∨ ∀ t ∈ test.tokens, P t) ∧ body.Over P
  | .forLoop initial test step body =>
    Stmt.optionalOver P initial ∧ (∀ t ∈ Expr.optionalTokens test, P t) ∧
      (∀ t ∈ Expr.optionalTokens step, P t) ∧ body.Over P
  | .function name params body => P name ∧ (∀ t ∈ params, P t) ∧ Stmt.listOver P body
  | .ret keyword value => P keyword ∧ ∀ t ∈ Expr.optionalTokens value, P t
  | .brk keyword => P keyword

def Stmt.listOver (P : Token → Prop) : List Stmt → Prop
  | [] => True
  | s :: ss => s.Over P ∧ Stmt.listOver P ss

def Stmt.optionalOver (P : Token → Prop) : Option Stmt → Prop
  | none => True
  | some s => s.Over P

end

/-- The condition of a counting loop, whether it names one or not. -/
theorem Stmt.getD_always_over {test : Option Expr} (tested : ∀ t ∈ Expr.optionalTokens test, P t) :
    test.getD Stmt.always = Stmt.always ∨ ∀ t ∈ (test.getD Stmt.always).tokens, P t := by
  cases test with
  | none => exact .inl rfl
  | some e => exact .inr tested

/-- A counting loop says the same with a block and a conditional loop. -/
theorem Stmt.over_desugarFor {initial : Option Stmt} {test step : Option Expr} {body : Stmt}
    (made : (Stmt.forLoop initial test step body).Over P) :
    (Stmt.desugarFor initial test step body).Over P := by
  rw [Over] at made
  obtain ⟨first, tested, stepped, repeated⟩ := made
  have loop : ∀ round : Stmt, round.Over P → (Stmt.whileLoop (test.getD Stmt.always) round).Over P := by
    intro round inner
    rw [Over]
    exact ⟨Stmt.getD_always_over tested, inner⟩
  have round : ∀ e, step = some e → (Stmt.block [body, .expression e]).Over P := by
    rintro e rfl
    simp only [Over, listOver, and_true]
    exact ⟨repeated, stepped⟩
  have behind : ∀ st, initial = some st → ∀ rest : Stmt, rest.Over P → (Stmt.block [st, rest]).Over P := by
    rintro st rfl rest further
    simp only [Over, listOver, and_true]
    exact ⟨first, further⟩
  cases initial with
  | none =>
    cases step with
    | none => exact loop body repeated
    | some e => exact loop _ (round e rfl)
  | some st =>
    cases step with
    | none => exact behind st rfl _ (loop body repeated)
    | some e => exact behind st rfl _ (loop _ (round e rfl))

/-! ## Spellings -/

namespace Grammar

/-- The tokens that a phrase keeps satisfy `P`. -/
def Phrase.Over (P : Token → Prop) : Phrase → Prop
  | .primary e | .operand e | .arithmetic e | .comparison e | .expression e | .effect e =>
    ∀ t ∈ e.tokens, P t
  | .argumentList es | .arguments es => ∀ t ∈ Expr.listTokens es, P t
  | .parameterList names | .parameters names => ∀ t ∈ names, P t
  | .clause _ e => ∀ t ∈ Expr.optionalTokens e, P t
  | .variable var value => P var ∧ ∀ t ∈ Expr.optionalTokens value, P t
  | .initial st => Stmt.optionalOver P st
  | .statement st _ | .declaration st _ => st.Over P
  | .body ss => Stmt.listOver P ss

/-- What is spelled keeps tokens of the spelling. -/
theorem Derives.over {p : Phrase} {ts : List Token} (derived : Derives p ts) (all : ∀ t ∈ ts, P t) :
    p.Over P := by
  induction derived with
  -- a counting loop is kept in another form; all other phrases keep tokens of theirs and their parts
  | forLoop keyed opens first tested stepped repeated ih₁ ih₂ ih₃ ih₄ =>
    simp only [List.forall_mem_cons, List.forall_mem_append] at all
    obtain ⟨_, _, ts, us, vs, ws⟩ := all
    refine Stmt.over_desugarFor ?_
    rw [Stmt.Over]
    exact ⟨ih₁ ts, ih₂ us, ih₃ vs, ih₄ ws⟩
  | _ => simp_all [Phrase.Over, Expr.tokens, Expr.listTokens, Expr.optionalTokens, Stmt.Over,
      Stmt.listOver, Stmt.optionalOver, or_imp, forall_and]

theorem Spells.over {ts : List Token} {ss : List Stmt} (spells : Spells ts ss) (all : ∀ t ∈ ts, P t) :
    Stmt.listOver P ss := by
  induction spells with
  | done => trivial
  | stray _ _ _ ih => exact ih (List.forall_mem_cons.mp all).2
  | next _ first _ ih =>
    obtain ⟨front, behind⟩ := List.forall_mem_append.mp all
    rw [Stmt.listOver]
    exact ⟨first.over front, ih behind⟩

end Grammar

/-- A program that has been read consists of tokens in front of the end. -/
theorem over_of_parseTokens {tokens : List Token} {statements : List Stmt}
    (parsed : parseTokens tokens = .ok statements) :
    Stmt.listOver (fun t => t ∈ tokens ∧ t.isEnd = false) statements := by
  obtain ⟨rest, run⟩ := program_of_parseTokens parsed
  obtain ⟨used, lost, _, rfl, split, spelled, _⟩ := Parser.statements_spell _ [] _ run
  rw [inside_closeTokens] at split
  refine spelled.over fun t member => ⟨?_, spelled.isEnd_eq_false t member⟩
  have front : t ∈ Parser.inside tokens := split ▸ List.mem_append_left lost member
  exact (List.takeWhile_sublist _).subset front

end ImpCompiler
