import ImpCompiler.Lowering.LoweringError
import ImpCompiler.Lowering.Scopes
import ImpCompiler.Number.Literal
import ImpCompiler.Output
import ImpCompiler.Ssa.Check
import ImpCompiler.Ssa.Emitter
import ImpCompiler.Tree

/-! # Lowering programs to modules

A program becomes a function `main` that does its statements in order and returns 0,
unless it returns something else before.  Every variable has a slot, made for the type
of its initial value; reading a variable loads an `i32`.  Parameters are stored to
slots too, so that they can be assigned to.

Lowering goes on until the first error.  What it has changed until then can be seen in
the state that is given back with the error; the scopes and the insertion point that
were open around a function, and the scopes that were open around a block, are put back
in either case. -/

namespace ImpCompiler

open Ssa

/-- A module under construction and the open scopes. -/
structure LowerState where
  emitter : Emitter
  scopes : Scopes

/-- A step of lowering. -/
abbrev Lower := EStateM LoweringError LowerState

namespace Lower

/-! ## Context -/

/-- Acts on the module under construction. -/
def emit {α : Type} (action : Emit α) : Lower α :=
  fun s =>
    match action s.emitter with
    | .ok a emitter => .ok a { s with emitter := emitter }
    | .error e emitter => .error (.emit e) { s with emitter := emitter }

/-- Changes the open scopes. -/
def modifyScopes (change : Scopes → Scopes) : Lower Unit :=
  fun s => .ok () { s with scopes := change s.scopes }

/-- The step `body` with `restore` after it, whether it fails or not. -/
def ensuring {α : Type} (body : Lower α) (restore : LowerState → LowerState) : Lower α :=
  fun s =>
    match body s with
    | .ok a s => .ok a (restore s)
    | .error e s => .error e (restore s)

/-- The step `body` within a block scope of its own. -/
def withBlockScope (body : Lower Unit) : Lower Unit := do
  modifyScopes (·.push .block)
  ensuring body fun s => { s with scopes := s.scopes.pop }

/-- The step `body` at the start of the function `id`, within a scope of its own. -/
def withFunction (id : Nat) (body : Lower Unit) : Lower Unit := do
  let point := (← get).emitter.point
  let entry ← emit (Emitter.appendBlock id "entry")
  emit (Emitter.moveTo id entry)
  modifyScopes (·.push .function)
  ensuring body fun s => ⟨{ s.emitter with point := point }, s.scopes.pop⟩

/-- Adds a block to the current function. -/
def appendBlock (label : String) : Lower Nat := do
  let function ← emit Emitter.currentFunction
  emit (Emitter.appendBlock function label)

/-- Goes to the end of a block of the current function. -/
def moveTo (block : Nat) : Lower Unit := do
  let function ← emit Emitter.currentFunction
  emit (Emitter.moveTo function block)

/-- Ends the current block, unless it has ended. -/
def terminateIfOpen (action : Emit Unit) : Lower Unit := do
  if ← emit Emitter.isTerminated then
    return ()
  else
    emit action

/-- The variable that a name stands for. -/
def lookup (name : Token) : Lower Binding := do
  match (← get).scopes.lookup name.text with
  | some binding => return binding
  | none => throw (.undefinedVariable name.text name.position)

/-! ## Expressions -/

/-- The value of a literal. -/
def literal (t : Token) : Lower Value :=
  let invalid : Lower Value := throw (.invalidLiteral t.text t.position)
  match t.kind with
  | .intLiteral =>
    match int32OfText? t.text with
    | some value => return .i32 value
    | none => invalid
  | .floatLiteral =>
    match Binary64.ofText? t.text with
    | some bits => return .constFloat bits
    | none => invalid
  | .boolLiteral =>
    match t.text with
    | "true" => return .bool true
    | "false" => return .bool false
    | _ => invalid
  | .stringLiteral => emit (Emitter.globalString t.text)
  | _ => invalid

/-- The operation that an operator of arithmetic stands for, and the name of its result. -/
def arithmeticOp? (op : String) (ty : Ty) : Option (BinaryOp × String) :=
  if ty.isInt then
    match op with
    | "+" => some (.add, "addtmp")
    | "-" => some (.sub, "subtmp")
    | "*" => some (.mul, "multmp")
    | "/" => some (.sdiv, "divtmp")
    | _ => none
  else if ty.isFloat then
    match op with
    | "+" => some (.fadd, "addtmp")
    | "-" => some (.fsub, "subtmp")
    | "*" => some (.fmul, "multmp")
    | "/" => some (.fdiv, "divtmp")
    | _ => none
  else
    none

/-- The test of integers that a comparison stands for. -/
def intTest? : String → Option IntTest
  | "<" => some .slt
  | ">" => some .sgt
  | "<=" => some .sle
  | ">=" => some .sge
  | "==" => some .eq
  | "!=" => some .ne
  | _ => none

/-- The test of floats that a comparison stands for. -/
def floatTest? : String → Option FloatTest
  | "<" => some .olt
  | ">" => some .ogt
  | "<=" => some .ole
  | ">=" => some .oge
  | "==" => some .oeq
  | "!=" => some .one
  | _ => none

/-- Two operands joined by an operator; both have to have the same type. -/
def binary (op : Token) (left right : Value) : Lower Value := do
  let ty := left.ty
  let unsupported : Lower Value := throw (.unsupportedOperator op.text ty op.position)
  if ty ≠ right.ty then
    throw (.typeMismatch op.text ty right.ty op.position)
  else
    match op.kind with
    | .arithmetic =>
      match arithmeticOp? op.text ty with
      | some (operation, name) => emit (Emitter.binary operation left right name)
      | none => unsupported
    | .compare =>
      if ty.isInt then
        match intTest? op.text with
        | some test => emit (Emitter.icmp test left right "cmptmp")
        | none => unsupported
      else if ty.isFloat then
        match floatTest? op.text with
        | some test => emit (Emitter.fcmp test left right "cmptmp")
        | none => unsupported
      else
        unsupported
    | _ => unsupported

/-- An operand with a sign. -/
def unary (op : Token) (operand : Value) : Lower Value :=
  let ty := operand.ty
  let unsupported : Lower Value := throw (.unsupportedOperator op.text ty op.position)
  match op.text with
  | "-" =>
    if ty.isInt then emit (Emitter.binary .sub (.constInt ty 0) operand "negtmp")
    else if ty.isFloat then emit (Emitter.fneg operand "negtmp")
    else unsupported
  | "!" =>
    if ty.isInt then emit (Emitter.binary .xor operand (.constInt ty (-1)) "nottmp")
    else unsupported
  | _ => unsupported

/-- The truth of a value: a number is true if it is not zero. -/
def test (value : Value) (position : Position) : Lower Value :=
  match value.ty with
  | .i1 => return value
  | .i32 => emit (Emitter.icmp .ne value (.i32 0) "tobool")
  | .f64 => emit (Emitter.fcmp .one value (.constFloat 0) "tobool")
  | ty => throw (.invalidCondition ty position)

/-- Stores a value to a variable, which keeps the type of its slot. -/
def assign (target : Token) (value : Value) : Lower Value := do
  let binding ← lookup target
  if value.ty ≠ binding.ty then
    throw (.typeMismatch "=" binding.ty value.ty target.position)
  else
    emit (Emitter.store value binding.slot)
    return value

/-- A call of a function that has been declared before, with `count` arguments;
    `arguments` lowers them, given the types of the parameters. -/
def call (callee : Token) (count : Nat) (arguments : List Ty → Lower (List Value)) :
    Lower (Option Value) := do
  match ← emit (Emitter.findFunction callee.text) with
  | none => throw (.unknownFunction callee.text callee.position)
  | some id =>
    let types := (← emit (Emitter.function id)).paramTypes
    if types.length ≠ count then
      throw (.argumentCount callee.text types.length count callee.position)
    else
      let args ← arguments types
      emit (Emitter.call id args "calltmp")

mutual

/-- Lowers an expression to its value. -/
def expr : Expr → Lower Value
  | .binary left op right => do
    let left ← expr left
    let right ← expr right
    binary op left right
  | .unary op operand => do
    let operand ← expr operand
    unary op operand
  | .literal value => literal value
  | .name var => do
    let binding ← lookup var
    emit (Emitter.load .i32 binding.slot var.text)
  | .assign target value => do
    let value ← expr value
    assign target value
  | .call callee arguments => do
    match ← call callee arguments.length (args callee.text 0 arguments) with
    | some value => return value
    | none => throw (.voidValue callee.text callee.position)
  | .group inner => expr inner

/-- Lowers the arguments of a call from number `index` on, given the types of the
    parameters. -/
def args (callee : String) (index : Nat) : List Expr → List Ty → Lower (List Value)
  | argument :: arguments, ty :: types => do
    let value ← expr argument
    if value.ty ≠ ty then
      throw (.argumentType callee index ty value.ty argument.position)
    else
      let values ← args callee (index + 1) arguments types
      return value :: values
  | _, _ => return []

end

/-- Lowers an expression whose value is not used; a call may have none. -/
def effect : Expr → Lower Unit
  | .call callee arguments => do
    let _ ← call callee arguments.length (args callee.text 0 arguments)
  | e => do
    let _ ← expr e

/-- Lowers an expression to a truth value. -/
def condition (e : Expr) : Lower Value := do
  let value ← expr e
  test value e.position

/-! ## Statements -/

/-- The function that prints values of a kind; it is declared when it is first used. -/
def printFunction (routine : PrintRoutine) (position : Position) : Lower Nat := do
  match ← emit (Emitter.findFunction routine.name) with
  | none => emit (Emitter.addFunction routine.name [⟨"", routine.param⟩] .void)
  | some id =>
    let f ← emit (Emitter.function id)
    if f.isDeclaration ∧ f.returnType = .void ∧ f.paramTypes = [routine.param] then
      return id
    else
      throw (.duplicateFunction routine.name position)

/-- Prints an argument with a routine. -/
def printWith (routine : PrintRoutine) (argument : Value) (position : Position) : Lower Unit := do
  let function ← printFunction routine position
  let _ ← emit (Emitter.call function [argument] "")

/-- Prints a value; a truth value is printed as a number. -/
def print (value : Value) (position : Position) : Lower Unit :=
  match value.ty with
  | .ptr => printWith .text value position
  | .i32 => printWith .integer value position
  | .i1 => do
    let widened ← emit (Emitter.zext value .i32 "widened")
    printWith .integer widened position
  | .f64 => printWith .real value position
  | .void => throw (.unsupportedPrint .void position)

/-- Declares a variable with its first value. -/
def declare (var : Token) (value : Value) : Lower Unit := do
  let slot ← emit (Emitter.alloca value.ty var.text)
  emit (Emitter.store value slot)
  modifyScopes (·.define var.text slot value.ty)

/-- Two branches; the condition is lowered before their blocks are added. -/
def ifElse (condition : Lower Value) (yes no : Lower Unit) : Lower Unit := do
  let value ← condition
  let yesBlock ← appendBlock "then"
  let noBlock ← appendBlock "else"
  let joinBlock ← appendBlock "ifcont"
  emit (Emitter.condBranch value yesBlock noBlock)
  moveTo yesBlock
  yes
  terminateIfOpen (Emitter.branch joinBlock)
  moveTo noBlock
  no
  terminateIfOpen (Emitter.branch joinBlock)
  moveTo joinBlock

/-- A loop; its blocks are added before the condition is lowered. -/
def whileLoop (condition : Lower Value) (body : Lower Unit) : Lower Unit := do
  let conditionBlock ← appendBlock "whilecond"
  let bodyBlock ← appendBlock "whilebody"
  let afterBlock ← appendBlock "whileafter"
  terminateIfOpen (Emitter.branch conditionBlock)
  moveTo conditionBlock
  let value ← condition
  emit (Emitter.condBranch value bodyBlock afterBlock)
  moveTo bodyBlock
  body
  terminateIfOpen (Emitter.branch conditionBlock)
  moveTo afterBlock

/-- Stores the parameters of the current function to slots, from number `index` on. -/
def storeParams (index : Nat) : List Token → Lower Unit
  | [] => return ()
  | param :: params => do
    let value ← emit (Emitter.param index)
    let slot ← emit (Emitter.alloca .i32 param.text)
    emit (Emitter.store value slot)
    modifyScopes (·.define param.text slot .i32)
    storeParams (index + 1) params

/-- Returns 0 where control may come to the end of a function. -/
def returnZero : Lower Unit :=
  terminateIfOpen (Emitter.ret (some (.i32 0)))

/-- A function; no other function may have its name. -/
def function (name : Token) (params : List Token) (body : Lower Unit) : Lower Unit := do
  match ← emit (Emitter.findFunction name.text) with
  | some _ => throw (.duplicateFunction name.text name.position)
  | none =>
    let id ← emit (Emitter.addFunction name.text (params.map fun p => ⟨p.text, .i32⟩) .i32)
    withFunction id do
      storeParams 0 params
      body
      returnZero

mutual

/-- Lowers a statement. -/
def stmt : Stmt → Lower Unit
  | .expression value => effect value
  | .print value => do
    print (← expr value) value.position
  | .declare var none => declare var (.i32 0)
  | .declare var (some initial) => do
    declare var (← expr initial)
  | .block body => withBlockScope (stmts body)
  | .ifElse test yes no => ifElse (condition test) (stmt yes) (optional no)
  | .whileLoop test body => whileLoop (condition test) (stmt body)
  | .forLoop initial test step body =>
    let round :=
      match step with
      | some step => withBlockScope do
        stmt body
        effect step
      | none => stmt body
    let loop := whileLoop (condition (test.getD Stmt.always)) round
    if initial.isSome then
      withBlockScope do
        optional initial
        loop
    else
      loop
  | .function name params body => function name params (stmts body)
  | .ret _ none => emit (Emitter.ret none)
  | .ret _ (some value) => do
    let value ← expr value
    emit (Emitter.ret (some value))
  | .brk _ => return ()

/-- Lowers statements in order. -/
def stmts : List Stmt → Lower Unit
  | [] => return ()
  | s :: ss => do
    stmt s
    stmts ss

/-- Lowers a statement that may be absent. -/
def optional : Option Stmt → Lower Unit
  | some s => stmt s
  | none => return ()

end

/-- Lowers a program to the function `main` and those that it defines. -/
def program (statements : List Stmt) : Lower Unit := do
  let main ← emit (Emitter.addFunction "main" [] .i32)
  let entry ← emit (Emitter.appendBlock main "entry")
  emit (Emitter.moveTo main entry)
  stmts statements
  returnZero

end Lower

/-- The module for a program, which is well formed, or the first error. -/
def lowerProgram (moduleName : String) (statements : List Stmt) : Except LoweringError Module :=
  match Lower.program statements ⟨.start moduleName, .start⟩ with
  | .error e _ => .error e
  | .ok () s =>
    match s.emitter.module.check with
    | .error e => .error (.malformed e)
    | .ok () => .ok s.emitter.module

end ImpCompiler
