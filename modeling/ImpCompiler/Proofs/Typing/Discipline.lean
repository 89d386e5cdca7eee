import ImpCompiler.Lowering.LoweringError
import ImpCompiler.Lowering.Scopes
import ImpCompiler.Number.Literal
import ImpCompiler.Output
import ImpCompiler.Tree

/-! # The type discipline

Which programs can be lowered, told by names and types alone.  A context holds the types of the
variables in the open scopes and the signatures of the functions known so far; a program is
checked statement by statement in the order in which it is lowered, and the check ends with the
first error.  Nothing is written, and no expression changes the context. -/

namespace ImpCompiler.Typing

open Ssa (Ty)

/-- What a check gives: a result, or the first error. -/
abbrev Checked := Except LoweringError

/-! ## Contexts -/

/-- What can be seen of a function from outside. -/
structure Signature where
  name : String
  params : List Ty
  returnType : Ty
  /-- The function has no body here. -/
  isDeclaration : Bool
deriving DecidableEq

/-- The types of the variables declared in one scope, the latest first. -/
structure TypeScope where
  kind : ScopeKind
  types : List (String × Ty)

structure Context where
  innermost : TypeScope
  outer : List TypeScope
  /-- The functions known so far, in the order in which they became known. -/
  functions : List Signature

/-- The variables that can be named in `scope`: its own, and those around it up to the function
    that it is in. -/
def visibleFrom (scope : TypeScope) : List TypeScope → List (String × Ty)
  | [] => scope.types
  | next :: outer =>
    match scope.kind with
    | .function => scope.types
    | .block => scope.types ++ visibleFrom next outer

namespace Context

/-- The context in which a program starts: it is the body of `main`. -/
def start : Context := ⟨⟨.function, []⟩, [], [⟨"main", [], .i32, false⟩]⟩

/-- Opens a scope. -/
def enter (Γ : Context) (kind : ScopeKind) : Context :=
  { Γ with innermost := ⟨kind, []⟩, outer := Γ.innermost :: Γ.outer }

/-- The context behind a scope that ended in `inner`: functions stay known, variables do not. -/
def leave (Γ inner : Context) : Context :=
  { Γ with functions := inner.functions }

def declare (Γ : Context) (name : String) (ty : Ty) : Context :=
  { Γ with innermost := { Γ.innermost with types := (name, ty) :: Γ.innermost.types } }

def addFunction (Γ : Context) (f : Signature) : Context :=
  { Γ with functions := Γ.functions ++ [f] }

def function? (Γ : Context) (name : String) : Option Signature :=
  Γ.functions.find? fun f => f.name == name

/-- The type of the variable that a name stands for. -/
def variableType (Γ : Context) (name : Token) : Checked Ty :=
  match (visibleFrom Γ.innermost Γ.outer).lookup name.text with
  | some ty => .ok ty
  | none => .error (.undefinedVariable name.text name.position)

end Context

/-! ## Expressions -/

def isNumber (ty : Ty) : Bool := ty.isInt || ty.isFloat

def literalType (t : Token) : Checked Ty :=
  let invalid : Checked Ty := .error (.invalidLiteral t.text t.position)
  match t.kind with
  | .intLiteral => if (int32OfText? t.text).isSome then .ok .i32 else invalid
  | .floatLiteral => if (Binary64.ofText? t.text).isSome then .ok .f64 else invalid
  | .boolLiteral => if t.text = "true" ∨ t.text = "false" then .ok .i1 else invalid
  | .stringLiteral => .ok .ptr
  | _ => invalid

/-- Both operands have one type, which is that of numbers; a comparison gives a truth value. -/
def binaryType (op : Token) (left right : Ty) : Checked Ty :=
  let unsupported : Checked Ty := .error (.unsupportedOperator op.text left op.position)
  if left ≠ right then
    .error (.typeMismatch op.text left right op.position)
  else
    match op.kind with
    | .arithmetic =>
      if op.text ∈ ["+", "-", "*", "/"] ∧ isNumber left then .ok left else unsupported
    | .compare =>
      if op.text ∈ ["<", ">", "<=", ">=", "==", "!="] ∧ isNumber left then .ok .i1 else unsupported
    | _ => unsupported

def unaryType (op : Token) (ty : Ty) : Checked Ty :=
  if op.text = "-" ∧ isNumber ty ∨ op.text = "!" ∧ ty.isInt then
    .ok ty
  else
    .error (.unsupportedOperator op.text ty op.position)

/-- What a call with `count` arguments returns; `arguments` checks them, given the types of the
    parameters. -/
def callType (Γ : Context) (callee : Token) (count : Nat) (arguments : List Ty → Checked Unit) :
    Checked Ty :=
  match Γ.function? callee.text with
  | none => .error (.unknownFunction callee.text callee.position)
  | some f =>
    if f.params.length ≠ count then
      .error (.argumentCount callee.text f.params.length count callee.position)
    else do
      arguments f.params
      return f.returnType

mutual

/-- The type of an expression.  Reading a variable gives a number whatever its slot was made
    for. -/
def exprType (Γ : Context) : Expr → Checked Ty
  | .binary left op right => do
    let left ← exprType Γ left
    let right ← exprType Γ right
    binaryType op left right
  | .unary op operand => do
    let ty ← exprType Γ operand
    unaryType op ty
  | .literal value => literalType value
  | .name var => do
    let _ ← Γ.variableType var
    return .i32
  | .assign target value => do
    let ty ← exprType Γ value
    let slot ← Γ.variableType target
    if ty ≠ slot then
      throw (.typeMismatch "=" slot ty target.position)
    else
      return slot
  | .call callee arguments => do
    let ty ← callType Γ callee arguments.length (checkArguments Γ callee.text 0 arguments)
    if ty = .void then
      throw (.voidValue callee.text callee.position)
    else
      return ty
  | .group inner => exprType Γ inner

/-- The arguments of a call from number `index` on have the types of the parameters. -/
def checkArguments (Γ : Context) (callee : String) (index : Nat) :
    List Expr → List Ty → Checked Unit
  | argument :: arguments, ty :: types => do
    let found ← exprType Γ argument
    if found ≠ ty then
      throw (.argumentType callee index ty found argument.position)
    else
      checkArguments Γ callee (index + 1) arguments types
  | _, _ => return ()

end

/-- An expression whose value is not used; a call may have none. -/
def checkEffect (Γ : Context) : Expr → Checked Unit
  | .call callee arguments => do
    let _ ← callType Γ callee arguments.length (checkArguments Γ callee.text 0 arguments)
  | e => do
    let _ ← exprType Γ e

/-- A condition is a number or a truth value. -/
def checkCondition (Γ : Context) (e : Expr) : Checked Unit := do
  let ty ← exprType Γ e
  if isNumber ty then
    return ()
  else
    throw (.invalidCondition ty e.position)

/-! ## Statements -/

/-- The routine that prints values of a type. -/
def printRoutine? : Ty → Option PrintRoutine
  | .ptr => some .text
  | .i1 => some .integer
  | .i32 => some .integer
  | .f64 => some .real
  | .void => none

def routineSignature (routine : PrintRoutine) : Signature :=
  ⟨routine.name, [routine.param], .void, true⟩

/-- A routine becomes known when it is first used, unless the program has a function of its name. -/
def useRoutine (Γ : Context) (routine : PrintRoutine) (position : Position) : Checked Context :=
  match Γ.function? routine.name with
  | none => .ok (Γ.addFunction (routineSignature routine))
  | some f =>
    if f = routineSignature routine then
      .ok Γ
    else
      .error (.duplicateFunction routine.name position)

def checkPrint (Γ : Context) (e : Expr) : Checked Context := do
  let ty ← exprType Γ e
  match printRoutine? ty with
  | some routine => useRoutine Γ routine e.position
  | none => throw (.unsupportedPrint ty e.position)

/-- The check of a block, within a scope of its own. -/
def checkScoped (check : Context → Checked Context) (Γ : Context) : Checked Context := do
  let inner ← check (Γ.enter .block)
  return Γ.leave inner

/-- The check of a function; its own body may call it. -/
def checkFunction (name : Token) (params : List Token) (body : Context → Checked Context)
    (Γ : Context) : Checked Context :=
  if (Γ.function? name.text).isSome then
    .error (.duplicateFunction name.text name.position)
  else do
    let known := Γ.addFunction ⟨name.text, params.map fun _ => .i32, .i32, false⟩
    let entered := params.foldl (fun Γ p => Γ.declare p.text .i32) (known.enter .function)
    let inner ← body entered
    return Γ.leave inner

mutual

/-- The context behind a statement. -/
def checkStmt : Stmt → Context → Checked Context
  | .expression e, Γ => do
    checkEffect Γ e
    return Γ
  | .print e, Γ => checkPrint Γ e
  | .declare var none, Γ => return Γ.declare var.text .i32
  | .declare var (some e), Γ => do
    let ty ← exprType Γ e
    return Γ.declare var.text ty
  | .block body, Γ => checkScoped (checkStmts body) Γ
  | .ifElse test yes no, Γ => do
    checkCondition Γ test
    let Γ ← checkStmt yes Γ
    checkOptional no Γ
  | .whileLoop test body, Γ => do
    checkCondition Γ test
    checkStmt body Γ
  | .forLoop initial test step body, Γ =>
    let round : Context → Checked Context :=
      match step with
      | none => checkStmt body
      | some step => checkScoped fun Γ => do
        let Γ ← checkStmt body Γ
        checkEffect Γ step
        return Γ
    let loop : Context → Checked Context := fun Γ => do
      checkCondition Γ (test.getD Stmt.always)
      round Γ
    if initial.isSome then
      checkScoped (fun Γ => do
        let Γ ← checkOptional initial Γ
        loop Γ) Γ
    else
      loop Γ
  | .function name params body, Γ => checkFunction name params (checkStmts body) Γ
  | .ret _ none, Γ => return Γ
  | .ret _ (some e), Γ => do
    let _ ← exprType Γ e
    return Γ
  | .brk _, Γ => return Γ

def checkStmts : List Stmt → Context → Checked Context
  | [], Γ => return Γ
  | st :: ss, Γ => do
    let Γ ← checkStmt st Γ
    checkStmts ss Γ

def checkOptional : Option Stmt → Context → Checked Context
  | none, Γ => return Γ
  | some st, Γ => checkStmt st Γ

end

/-- The check of a whole program, which gives all functions of its module. -/
def checkProgram (statements : List Stmt) : Checked Context :=
  checkStmts statements .start

end ImpCompiler.Typing
