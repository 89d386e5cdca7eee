import ImpCompiler.Proofs.Tree.Soundness

/-! # How the parser is put together

All that the parser does, it does through the readers of single tokens.  What holds of these, and of
one parser behind another, therefore holds of the whole parser (`exprs_built`, `stmts_built`), and is
proved by an induction that does not look at the grammar again. -/

namespace ImpCompiler.Parser

/-- Parsers that are put together from the readers of single tokens.  A token that is not the next one
    is blamed for an error only if it is one of `seen`, or was taken since. -/
inductive Built : List Token → {α : Type} → Parser α → Prop where
  | pure {seen : List Token} {α : Type} (a : α) : Built seen (Pure.pure a)
  | failHere {seen : List Token} {α : Type} (cause : Cause) :
      Built seen (Parser.failHere cause : Parser α)
  | failAt {seen : List Token} {α : Type} {t : Token} (member : t ∈ seen) (cause : Cause) :
      Built seen (Parser.failAt t cause : Parser α)
  | bind {seen : List Token} {α β : Type} {p : Parser α} {next : α → Parser β} (first : Built seen p)
      (second : ∀ a, Built seen (next a)) : Built seen (p >>= next)
  | takeIf {seen : List Token} {α : Type} {accepts : Token → Bool} {next : Option Token → Parser α}
      (absent : Built seen (next none)) (present : ∀ t, Built (t :: seen) (next (some t))) :
      Built seen (Parser.takeIf accepts >>= next)
  | nextIs {seen : List Token} {α : Type} {kind : Kind} {next : Bool → Parser α}
      (either : ∀ b, Built seen (next b)) : Built seen (Parser.nextIs kind >>= next)
  | ifAtEnd {seen : List Token} {α : Type} {stop go : Parser α} (stops : Built seen stop)
      (goes : Built seen go) : Built seen (do if atEnd (← get) then stop else go)

namespace Built

variable {α β : Type} {seen : List Token}

theorem map {p : Parser α} (f : α → β) (built : Built seen p) : Built seen (f <$> p) := by
  rw [map_eq_pure_bind]
  exact built.bind fun a => .pure (f a)

theorem accept {kind : Kind} {next : Option Token → Parser α} (absent : Built seen (next none))
    (present : ∀ t, Built (t :: seen) (next (some t))) : Built seen (Parser.accept kind >>= next) :=
  .takeIf absent present

theorem acceptText {kind : Kind} {text : String} {next : Option Token → Parser α}
    (absent : Built seen (next none)) (present : ∀ t, Built (t :: seen) (next (some t))) :
    Built seen (Parser.acceptText kind text >>= next) :=
  .takeIf absent present

theorem expect {kind : Kind} {cause : Cause} {next : Token → Parser α}
    (present : ∀ t, Built (t :: seen) (next t)) : Built seen (Parser.expect kind cause >>= next) := by
  rw [Parser.expect, bind_assoc]
  have absent : (Parser.failHere cause >>= next) = Parser.failHere cause := rfl
  refine accept ?_ present
  rw [absent]
  exact .failHere cause

end Built

/-! ## Expressions -/

/-- The functions for expressions are put together from readers of tokens, with any number of steps. -/
structure ExprsBuilt (n : Nat) : Prop where
  expression : ∀ seen, Built seen (expression n)
  comparison : ∀ seen, Built seen (comparison n)
  comparisonRest : ∀ seen left, Built seen (comparisonRest n left)
  arithmetic : ∀ seen, Built seen (arithmetic n)
  arithmeticRest : ∀ seen left, Built seen (arithmeticRest n left)
  unary : ∀ seen, Built seen (unary n)
  callRest : ∀ seen callee, Built seen (callRest n callee)
  argumentList : ∀ seen read, Built seen (argumentList n read)
  primary : ∀ seen, Built seen (primary n)

namespace ExprsBuilt

variable {n : Nat} (before : ExprsBuilt n) (seen : List Token)

include before

theorem expression_succ : Built seen (Parser.expression (n + 1)) := by
  rw [Parser.expression]
  refine (before.comparison seen).bind fun left => .acceptText (.pure left) fun equals => ?_
  refine (before.expression _).bind fun value => ?_
  cases left with
  | name target => exact .pure _
  | _ => exact .failAt List.mem_cons_self _

theorem comparison_succ : Built seen (Parser.comparison (n + 1)) := by
  rw [Parser.comparison]
  exact (before.arithmetic seen).bind fun left => before.comparisonRest seen left

theorem comparisonRest_succ (left : Expr) : Built seen (Parser.comparisonRest (n + 1) left) := by
  rw [Parser.comparisonRest]
  refine .accept (.pure left) fun op => ?_
  exact (before.arithmetic _).bind fun right => before.comparisonRest _ _

theorem arithmetic_succ : Built seen (Parser.arithmetic (n + 1)) := by
  rw [Parser.arithmetic]
  exact (before.unary seen).bind fun left => before.arithmeticRest seen left

theorem arithmeticRest_succ (left : Expr) : Built seen (Parser.arithmeticRest (n + 1) left) := by
  rw [Parser.arithmeticRest]
  refine .accept (.pure left) fun op => ?_
  exact (before.unary _).bind fun right => before.arithmeticRest _ _

theorem unary_succ : Built seen (Parser.unary (n + 1)) := by
  rw [Parser.unary]
  refine .takeIf ?_ fun op => ?_
  · exact (before.primary seen).bind fun operand => before.callRest seen operand
  · exact (before.unary _).bind fun operand => .pure _

theorem callRest_succ (callee : Expr) : Built seen (Parser.callRest (n + 1) callee) := by
  rw [Parser.callRest]
  refine .accept (.pure callee) fun opening => ?_
  cases callee with
  | name function =>
    -- the call is closed in the same way, with and without arguments
    have closed (es : List Expr) : Built (opening :: seen) (do
        let _ ← expect .rightParen .argumentsClose
        Parser.callRest n (.call function es)) :=
      .expect fun _ => before.callRest _ _
    refine .nextIs fun ends => ?_
    cases ends with
    | true => exact (Built.pure []).bind closed
    | false => exact (before.argumentList _ []).bind closed
  | _ => exact .failAt List.mem_cons_self _

theorem argumentList_succ (read : List Expr) : Built seen (Parser.argumentList (n + 1) read) := by
  rw [Parser.argumentList]
  split
  · exact .failHere _
  · refine (before.expression seen).bind fun argument => ?_
    exact .accept (.pure _) fun comma => before.argumentList _ _

theorem primary_succ : Built seen (Parser.primary (n + 1)) := by
  rw [Parser.primary]
  refine .takeIf (.failHere _) fun t => ?_
  dsimp only
  split
  · exact .pure _
  · exact (before.expression _).bind fun inner => .expect fun _ => .pure _
  · exact .pure _

end ExprsBuilt

theorem exprs_built : ∀ n, ExprsBuilt n
  | 0 => by
    constructor
    all_goals
      intros
      exact Built.failHere _
  | n + 1 =>
    have before := exprs_built n
    { expression := before.expression_succ
      comparison := before.comparison_succ
      comparisonRest := before.comparisonRest_succ
      arithmetic := before.arithmetic_succ
      arithmeticRest := before.arithmeticRest_succ
      unary := before.unary_succ
      callRest := before.callRest_succ
      argumentList := before.argumentList_succ
      primary := before.primary_succ }

/-! ## Clauses -/

section clauses

variable (n : Nat) (seen : List Token)

/-- An expression and the token that ends it. -/
theorem ended_built {α : Type} (ending : Kind) (cause : Cause) (make : Expr → α) :
    Built seen (do
      let value ← expression n
      let _ ← expect ending cause
      return make value) :=
  ((exprs_built n).expression seen).bind fun _ => .expect fun _ => .pure _

theorem declaredVariable_built : Built seen (declaredVariable n) := by
  refine .expect fun var => .acceptText ?_ fun equals => ?_
  · exact .expect fun _ => .pure _
  · exact ended_built n _ _ _ fun value => Stmt.declare var (some value)

theorem forClause_built (ending : Kind) (cause : Cause) : Built seen (forClause n ending cause) := by
  refine .nextIs fun absent => ?_
  cases absent with
  | true => exact .expect fun _ => .pure _
  | false => exact ended_built n seen ending cause some

theorem forInitial_built : Built seen (forInitial n) := by
  refine .accept ?_ fun closing => .pure none
  refine .acceptText ?_ fun keyword => ?_
  · exact (ended_built n seen _ _ Stmt.expression).map _
  · exact (declaredVariable_built n _).map _

theorem condition_built (opening closing : Cause) : Built seen (condition n opening closing) :=
  .expect fun _ => ended_built n _ _ _ id

theorem parameterList_built (read : List Token) : Built seen (parameterList n read) := by
  induction n generalizing seen read with
  | zero => exact .failHere _
  | succ n ih =>
    rw [parameterList]
    split
    · exact .failHere _
    · exact .expect fun param => .accept (.pure _) fun comma => ih _ _

theorem functionHead_built : Built seen (functionHead n) := by
  refine .expect fun name => .expect fun opening => ?_
  have closed (params : List Token) : Built (opening :: name :: seen) (do
      let _ ← expect .rightParen .parametersClose
      let _ ← expect .leftBrace .functionBody
      return (name, params)) :=
    .expect fun _ => .expect fun _ => .pure _
  refine .nextIs fun absent => ?_
  cases absent with
  | true => exact (Built.pure []).bind closed
  | false => exact (parameterList_built n _ []).bind closed

end clauses

/-! ## Statements -/

/-- The functions for statements are put together from readers of tokens, with any number of steps. -/
structure StmtsBuilt (n : Nat) : Prop where
  declaration : ∀ seen, Built seen (declaration n)
  statement : ∀ seen, Built seen (statement n)
  keywordStatement : ∀ seen keyword, keyword ∈ seen → Built seen (keywordStatement n keyword)
  blockRest : ∀ seen ending read, Built seen (blockRest n ending read)

namespace StmtsBuilt

variable {n : Nat} (before : StmtsBuilt n) (seen : List Token)

include before

theorem declaration_succ : Built seen (Parser.declaration (n + 1)) := by
  rw [Parser.declaration]
  refine .acceptText ?_ fun keyword => ?_
  · exact .acceptText (before.statement seen) fun keyword => declaredVariable_built n _
  · refine (functionHead_built n _).bind fun head => ?_
    obtain ⟨name, params⟩ := head
    exact (before.blockRest _ _ _).bind fun body => .pure _

theorem statement_succ : Built seen (Parser.statement (n + 1)) := by
  rw [Parser.statement]
  refine .accept ?_ fun opening => (before.blockRest _ _ _).map _
  refine .accept ?_ fun keyword => before.keywordStatement _ keyword List.mem_cons_self
  exact ended_built n seen _ _ Stmt.expression

theorem keywordStatement_succ (keyword : Token) (taken : keyword ∈ seen) :
    Built seen (Parser.keywordStatement (n + 1) keyword) := by
  rw [Parser.keywordStatement.eq_def]
  dsimp only
  split
  · refine (condition_built n seen _ _).bind fun test => (before.statement seen).bind fun yes => ?_
    exact .acceptText (.pure _) fun between => (before.statement _).bind fun no => .pure _
  · exact (condition_built n seen _ _).bind fun test => (before.statement seen).bind fun body => .pure _
  · exact .expect fun _ => (forInitial_built n _).bind fun initial =>
      (forClause_built n _ _ _).bind fun test => (forClause_built n _ _ _).bind fun step =>
        (before.statement _).bind fun body => .pure _
  · exact ended_built n seen _ _ Stmt.print
  -- what is returned is read as a clause of a counting loop is
  · rw [returned_eq]
    exact (forClause_built n seen _ _).map _
  · exact .expect fun _ => .pure _
  · exact .failAt taken _

theorem blockRest_succ (ending : Cause) (read : List Stmt) :
    Built seen (Parser.blockRest (n + 1) ending read) := by
  rw [Parser.blockRest]
  refine .accept (.ifAtEnd (.failHere _) ?_) fun brace => .pure _
  exact (before.declaration seen).bind fun st => before.blockRest seen _ _

end StmtsBuilt

theorem stmts_built : ∀ n, StmtsBuilt n
  | 0 => by
    constructor
    all_goals
      intros
      exact Built.failHere _
  | n + 1 =>
    have before := stmts_built n
    { declaration := before.declaration_succ
      statement := before.statement_succ
      keywordStatement := before.keywordStatement_succ
      blockRest := before.blockRest_succ }

end ImpCompiler.Parser
