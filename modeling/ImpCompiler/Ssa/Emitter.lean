import ImpCompiler.Ssa.Module

/-! # Writing a module

An emitter holds a module under construction and the place where the next
instruction goes: the end of a block of a function.  Instructions that follow a
terminator go to a new block, labelled `dead`, that no branch leads to.  Slots go to
the front of the function's first block wherever they are asked for, so that a
declaration in a loop makes one slot only.

An action gives the emitter back on failure too. -/

namespace ImpCompiler.Ssa

/-- Why an action of the emitter fails. -/
inductive EmitError where
  | noInsertPoint
  | unknownFunction (id : Nat)
  | unknownParameter (function : String) (index : Nat)
  /-- The place to write to is a block that the function does not have. -/
  | missingBlock
deriving DecidableEq

def EmitError.message : EmitError → String
  | .noInsertPoint => "Builder has no insertion point"
  | .unknownFunction id => "Unknown function id " ++ toString id
  | .unknownParameter function index =>
    "Function '" ++ function ++ "' has no parameter " ++ toString index
  | .missingBlock => "Builder has no block to write to"

/-- The end of a block of a function. -/
structure InsertPoint where
  function : Nat
  block : Nat
deriving DecidableEq

structure Emitter where
  module : Module
  point : Option InsertPoint

/-- An action on the module under construction. -/
abbrev Emit := EStateM EmitError Emitter

namespace Emitter

/-- The emitter of an empty module. -/
def start (name : String) : Emitter := ⟨.empty name, none⟩

/-! ## Functions and blocks -/

/-- Adds a function without blocks. -/
def addFunction (name : String) (params : List Param) (returnType : Ty) : Emit Nat :=
  fun e =>
    .ok e.module.functions.size
      { e with module := e.module.addFunction (.declare name params returnType) }

/-- The first function with a given name. -/
def findFunction (name : String) : Emit (Option Nat) :=
  fun e => .ok (e.module.findFunction? name) e

/-- The function with a given number. -/
def function (id : Nat) : Emit Func :=
  fun e =>
    match e.module.functions[id]? with
    | some f => .ok f e
    | none => .error (.unknownFunction id) e

/-- Changes a function. -/
def modifyFunction (id : Nat) (change : Func → Func) : Emit Unit :=
  fun e => .ok () { e with module := e.module.modifyFunction id change }

/-- Adds a block at the end of a function. -/
def appendBlock (function : Nat) (label : String) : Emit Nat := do
  let f ← Emitter.function function
  let id := f.blocks.size
  modifyFunction function fun f => f.addBlock label
  return id

/-! ## The insertion point -/

/-- Sets the insertion point, or takes it away. -/
def setPoint (point : Option InsertPoint) : Emit Unit :=
  fun e => .ok () { e with point := point }

/-- Goes to the end of a block. -/
def moveTo (function block : Nat) : Emit Unit :=
  setPoint (some ⟨function, block⟩)

/-- The insertion point, where there has to be one. -/
def currentPoint : Emit InsertPoint :=
  fun e =>
    match e.point with
    | some point => .ok point e
    | none => .error .noInsertPoint e

def currentFunction : Emit Nat := do
  return (← currentPoint).function

/-- Whether the current block has its terminator. -/
def isTerminated : Emit Bool := do
  let point ← currentPoint
  let f ← function point.function
  return f.blocks[point.block]?.any Block.isTerminated

/-- The value of a parameter of the current function. -/
def param (index : Nat) : Emit Value := do
  let f ← function (← currentFunction)
  match f.params[index]? with
  | some p => return .param index p.ty
  | none => throw (.unknownParameter f.name index)

/-- Adds a string constant. -/
def globalString (text : String) : Emit Value :=
  fun e =>
    .ok (.global e.module.globals.size)
      { e with module := e.module.addGlobal text.toUTF8.data.toList }

/-! ## Instructions -/

/-- The block to write to: the current one, or a new one if that is terminated. -/
def openBlock : Emit InsertPoint := do
  let point ← currentPoint
  let f ← function point.function
  match f.blocks[point.block]? with
  | none => throw .missingBlock
  | some b =>
    if b.isTerminated then
      let dead ← appendBlock point.function "dead"
      moveTo point.function dead
      return ⟨point.function, dead⟩
    else
      return point

/-- Writes an instruction without a result. -/
def push (i : Instr) : Emit Unit := do
  let point ← openBlock
  modifyFunction point.function fun f => f.pushInstr point.block i

/-- Writes an instruction whose result has the type `ty` and the name `name`, or a
    numbered form of it. -/
def pushResult (ty : Ty) (name : String) (make : Nat → Instr) : Emit Value := do
  let point ← openBlock
  let id := (← function point.function).locals.size
  modifyFunction point.function fun f => (f.addLocal name ty).pushInstr point.block (make id)
  return .result id ty

/-- Makes a slot, behind the slots at the front of the first block.  The name is taken
    before the function is found to have no block to hold the slot. -/
def alloca (ty : Ty) (name : String) : Emit Value := do
  let current ← currentFunction
  let f ← function current
  let id := f.locals.size
  let isDeclaration := f.isDeclaration
  modifyFunction current fun f => f.addLocal name .ptr
  if isDeclaration then
    throw .noInsertPoint
  else
    modifyFunction current fun f => f.insertSlot (.alloca id ty)
    return .result id .ptr

def load (ty : Ty) (ptr : Value) (name : String) : Emit Value :=
  pushResult ty name fun result => .load result ty ptr

def store (value ptr : Value) : Emit Unit :=
  push (.store value ptr)

/-- An operation; its result has the type of the left operand. -/
def binary (op : BinaryOp) (lhs rhs : Value) (name : String) : Emit Value :=
  pushResult lhs.ty name fun result => .binary result op lhs rhs

def icmp (test : IntTest) (lhs rhs : Value) (name : String) : Emit Value :=
  pushResult .i1 name fun result => .icmp result test lhs rhs

def fcmp (test : FloatTest) (lhs rhs : Value) (name : String) : Emit Value :=
  pushResult .i1 name fun result => .fcmp result test lhs rhs

def fneg (operand : Value) (name : String) : Emit Value :=
  pushResult .f64 name fun result => .fneg result operand

def zext (operand : Value) (ty : Ty) (name : String) : Emit Value :=
  pushResult ty name fun result => .zext result operand ty

/-- A call; there is no result if the callee returns none. -/
def call (callee : Nat) (args : List Value) (name : String) : Emit (Option Value) := do
  let returnType := (← function callee).returnType
  if returnType = .void then
    push (.call none callee args)
    return none
  else
    let value ← pushResult returnType name fun result => .call (some result) callee args
    return some value

/-! ## Terminators -/

/-- Ends the block to write to. -/
def terminate (t : Terminator) : Emit Unit := do
  let point ← openBlock
  modifyFunction point.function fun f => f.terminate point.block t

def ret (value : Option Value) : Emit Unit :=
  terminate (.ret value)

def branch (target : Nat) : Emit Unit :=
  terminate (.branch target)

def condBranch (condition : Value) (yes no : Nat) : Emit Unit :=
  terminate (.condBranch condition yes no)

end Emitter

end ImpCompiler.Ssa
