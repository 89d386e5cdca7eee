import ImpCompiler.Proofs.Tree.Tokens
import ImpCompiler.Proofs.Typing.Discipline

/-! # What the check blames

An error of the check says where it was found, and one of the tokens of the program stands there
(`checkStmts_blames`).  A loop without a condition has a condition that stands nowhere, but the check
finds nothing wrong with that one. -/

namespace ImpCompiler

/-- Where an error of lowering was found; what is wrong with a written module has no place. -/
def LoweringError.position? : LoweringError → Option Position
  | .undefinedVariable _ p | .unknownFunction _ p | .typeMismatch _ _ _ p | .unsupportedOperator _ _ p
  | .unsupportedPrint _ p | .invalidCondition _ p | .invalidLiteral _ p | .duplicateFunction _ p
  | .argumentCount _ _ _ p | .argumentType _ _ _ _ p | .voidValue _ p => some p
  | .emit _ | .malformed _ => none

namespace Typing

open Ssa (Ty)

variable {α β : Type} {P : Token → Prop}

/-- If the check ends with an error, then the error is found at a token with `P`. -/
def Blames (P : Token → Prop) (verdict : Checked α) : Prop :=
  ∀ error, verdict = .error error → ∃ t, P t ∧ error.position? = some t.position

namespace Blames

theorem ok (a : α) : Blames P (.ok a) := by
  intro error failed
  cases failed

theorem atToken {t : Token} {error : LoweringError} (holds : P t)
    (place : error.position? = some t.position) : Blames P (.error error : Checked α) := by
  intro _ failed
  cases failed
  exact ⟨t, holds, place⟩

theorem atExpr {e : Expr} {error : LoweringError} (all : ∀ t ∈ e.tokens, P t)
    (place : error.position? = some e.position) : Blames P (.error error : Checked α) := by
  obtain ⟨t, member, same⟩ := e.position_mem
  rw [← same] at place
  exact atToken (all t member) place

theorem bind {verdict : Checked α} {next : α → Checked β} (first : Blames P verdict)
    (second : ∀ a, Blames P (next a)) : Blames P (verdict >>= next) := by
  cases verdict with
  | ok a => exact second a
  | error e =>
    intro error failed
    cases failed
    exact first e rfl

end Blames

/-! ## Expressions -/

variable (Γ : Context)

theorem variableType_blames {name : Token} (holds : P name) : Blames P (Γ.variableType name) := by
  rw [Context.variableType]
  split
  · exact .ok _
  · exact .atToken holds rfl

theorem literalType_blames {t : Token} (holds : P t) : Blames P (literalType t) := by
  have invalid : Blames P (.error (.invalidLiteral t.text t.position) : Checked Ty) := .atToken holds rfl
  rw [literalType]
  split
  · split
    · exact .ok _
    · exact invalid
  · split
    · exact .ok _
    · exact invalid
  · split
    · exact .ok _
    · exact invalid
  · exact .ok _
  · exact invalid

theorem binaryType_blames {op : Token} (holds : P op) (left right : Ty) :
    Blames P (binaryType op left right) := by
  have unsupported : Blames P (.error (.unsupportedOperator op.text left op.position) : Checked Ty) :=
    .atToken holds rfl
  rw [binaryType]
  split
  · exact .atToken holds rfl
  split
  · split
    · exact .ok _
    · exact unsupported
  · split
    · exact .ok _
    · exact unsupported
  · exact unsupported

theorem unaryType_blames {op : Token} (holds : P op) (ty : Ty) : Blames P (unaryType op ty) := by
  rw [unaryType]
  split
  · exact .ok _
  · exact .atToken holds rfl

theorem callType_blames {callee : Token} (holds : P callee) (count : Nat)
    {arguments : List Ty → Checked Unit} (passed : ∀ types, Blames P (arguments types)) :
    Blames P (callType Γ callee count arguments) := by
  rw [callType]
  split
  · exact .atToken holds rfl
  split
  · exact .atToken holds rfl
  · exact (passed _).bind fun _ => .ok _

mutual

theorem exprType_blames : ∀ e : Expr, (∀ t ∈ e.tokens, P t) → Blames P (exprType Γ e)
  | .binary left op right, all => by
    rw [Expr.tokens, List.forall_mem_append, List.forall_mem_cons] at all
    obtain ⟨first, holds, second⟩ := all
    rw [exprType]
    exact (exprType_blames left first).bind fun _ => (exprType_blames right second).bind fun _ =>
      binaryType_blames holds _ _
  | .unary op operand, all => by
    rw [Expr.tokens, List.forall_mem_cons] at all
    obtain ⟨holds, inner⟩ := all
    rw [exprType]
    exact (exprType_blames operand inner).bind fun _ => unaryType_blames holds _
  | .literal value, all => by
    rw [Expr.tokens, List.forall_mem_singleton] at all
    rw [exprType]
    exact literalType_blames all
  | .name var, all => by
    rw [Expr.tokens, List.forall_mem_singleton] at all
    rw [exprType]
    exact (variableType_blames Γ all).bind fun _ => .ok _
  | .assign target value, all => by
    rw [Expr.tokens, List.forall_mem_cons] at all
    obtain ⟨holds, assigned⟩ := all
    rw [exprType]
    refine (exprType_blames value assigned).bind fun ty => (variableType_blames Γ holds).bind fun slot => ?_
    split
    · exact .atToken holds rfl
    · exact .ok _
  | .call callee arguments, all => by
    rw [Expr.tokens, List.forall_mem_cons] at all
    obtain ⟨holds, passed⟩ := all
    rw [exprType]
    refine (callType_blames Γ holds _ (checkArguments_blames _ _ arguments passed)).bind fun ty => ?_
    split
    · exact .atToken holds rfl
    · exact .ok _
  | .group inner, all => by
    rw [Expr.tokens] at all
    rw [exprType]
    exact exprType_blames inner all

theorem checkArguments_blames (callee : String) (index : Nat) : ∀ es : List Expr,
    (∀ t ∈ Expr.listTokens es, P t) → ∀ types, Blames P (checkArguments Γ callee index es types)
  | [], _, _ => by
    rw [checkArguments.eq_def]
    exact .ok _
  | e :: es, _, [] => by
    rw [checkArguments.eq_def]
    exact .ok _
  | e :: es, all, ty :: types => by
    rw [Expr.listTokens, List.forall_mem_append] at all
    obtain ⟨first, further⟩ := all
    rw [checkArguments]
    refine (exprType_blames e first).bind fun found => ?_
    split
    · exact .atExpr first rfl
    · exact checkArguments_blames callee (index + 1) es further types

end

theorem checkEffect_blames {e : Expr} (all : ∀ t ∈ e.tokens, P t) : Blames P (checkEffect Γ e) := by
  rw [checkEffect.eq_def]
  split
  · rw [Expr.tokens, List.forall_mem_cons] at all
    obtain ⟨holds, passed⟩ := all
    exact (callType_blames Γ holds _ (checkArguments_blames Γ _ _ _ passed)).bind fun _ => .ok _
  · exact (exprType_blames Γ e all).bind fun _ => .ok _

/-- The condition of a loop that names none can be tested. -/
theorem checkCondition_blames {e : Expr} (all : e = Stmt.always ∨ ∀ t ∈ e.tokens, P t) :
    Blames P (checkCondition Γ e) := by
  obtain rfl | all := all
  · -- the literal of that condition is a truth value in every context
    exact .ok _
  rw [checkCondition]
  refine (exprType_blames Γ e all).bind fun ty => ?_
  split
  · exact .ok _
  · exact .atExpr all rfl

/-! ## Statements -/

theorem checkPrint_blames {e : Expr} (all : ∀ t ∈ e.tokens, P t) : Blames P (checkPrint Γ e) := by
  rw [checkPrint]
  refine (exprType_blames Γ e all).bind fun ty => ?_
  split
  · rw [useRoutine]
    split
    · exact .ok _
    split
    · exact .ok _
    · exact .atExpr all rfl
  · exact .atExpr all rfl

theorem checkScoped_blames {check : Context → Checked Context} (inner : ∀ Γ, Blames P (check Γ)) :
    Blames P (checkScoped check Γ) :=
  (inner _).bind fun _ => .ok _

/-- One round of a loop; the step follows the body in a scope around both. -/
theorem round_blames {body : Context → Checked Context} (repeated : ∀ Γ, Blames P (body Γ))
    {step : Option Expr} (stepped : ∀ t ∈ Expr.optionalTokens step, P t) :
    Blames P ((match step with
      | none => body
      | some step => checkScoped fun Γ => do
        let Γ ← body Γ
        checkEffect Γ step
        return Γ) Γ) := by
  cases step with
  | none => exact repeated Γ
  | some step =>
    refine checkScoped_blames Γ fun Γ => (repeated Γ).bind fun Γ' => ?_
    exact (checkEffect_blames Γ' stepped).bind fun _ => .ok _

theorem checkFunction_blames {name : Token} (holds : P name) (params : List Token)
    {body : Context → Checked Context} (inner : ∀ Γ, Blames P (body Γ)) :
    Blames P (checkFunction name params body Γ) := by
  rw [checkFunction]
  split
  · exact .atToken holds rfl
  · exact (inner _).bind fun _ => .ok _

mutual

theorem checkStmt_blames : ∀ st : Stmt, st.Over P → ∀ Γ, Blames P (checkStmt st Γ)
  | .expression e, made, Γ => by
    rw [Stmt.Over] at made
    rw [checkStmt]
    exact (checkEffect_blames Γ made).bind fun _ => .ok _
  | .print e, made, Γ => by
    rw [Stmt.Over] at made
    rw [checkStmt]
    exact checkPrint_blames Γ made
  | .declare var none, _, Γ => by
    rw [checkStmt]
    exact .ok _
  | .declare var (some e), made, Γ => by
    rw [Stmt.Over, Expr.optionalTokens] at made
    rw [checkStmt]
    exact (exprType_blames Γ e made.2).bind fun _ => .ok _
  | .block body, made, Γ => by
    rw [Stmt.Over] at made
    rw [checkStmt]
    exact checkScoped_blames Γ (checkStmts_blames body made)
  | .ifElse test yes no, made, Γ => by
    rw [Stmt.Over] at made
    obtain ⟨tested, first, second⟩ := made
    rw [checkStmt]
    exact (checkCondition_blames Γ (.inr tested)).bind fun _ => (checkStmt_blames yes first Γ).bind fun Γ =>
      checkOptional_blames no second Γ
  | .whileLoop test body, made, Γ => by
    rw [Stmt.Over] at made
    obtain ⟨tested, repeated⟩ := made
    rw [checkStmt]
    exact (checkCondition_blames Γ tested).bind fun _ => checkStmt_blames body repeated Γ
  | .forLoop initial test step body, made, Γ => by
    rw [Stmt.Over] at made
    obtain ⟨first, tested, stepped, repeated⟩ := made
    rw [checkStmt]
    have loop (Γ' : Context) :=
      (checkCondition_blames Γ' (Stmt.getD_always_over tested)).bind fun _ =>
        round_blames Γ' (checkStmt_blames body repeated) stepped
    cases initial with
    | none => exact loop Γ
    | some st =>
      exact checkScoped_blames Γ fun Γ' => (checkOptional_blames (some st) first Γ').bind loop
  | .function name params body, made, Γ => by
    rw [Stmt.Over] at made
    obtain ⟨holds, _, inner⟩ := made
    rw [checkStmt]
    exact checkFunction_blames Γ holds params (checkStmts_blames body inner)
  | .ret keyword none, _, Γ => by
    rw [checkStmt]
    exact .ok _
  | .ret keyword (some e), made, Γ => by
    rw [Stmt.Over, Expr.optionalTokens] at made
    rw [checkStmt]
    exact (exprType_blames Γ e made.2).bind fun _ => .ok _
  | .brk keyword, _, Γ => by
    rw [checkStmt]
    exact .ok _

theorem checkStmts_blames : ∀ ss : List Stmt, Stmt.listOver P ss → ∀ Γ, Blames P (checkStmts ss Γ)
  | [], _, Γ => by
    rw [checkStmts]
    exact .ok _
  | st :: ss, made, Γ => by
    rw [Stmt.listOver] at made
    rw [checkStmts]
    exact (checkStmt_blames st made.1 Γ).bind fun Γ => checkStmts_blames ss made.2 Γ

theorem checkOptional_blames : ∀ st : Option Stmt, Stmt.optionalOver P st → ∀ Γ,
    Blames P (checkOptional st Γ)
  | none, _, Γ => by
    rw [checkOptional]
    exact .ok _
  | some st, made, Γ => by
    rw [Stmt.optionalOver] at made
    rw [checkOptional]
    exact checkStmt_blames st made Γ

end

end Typing

end ImpCompiler
