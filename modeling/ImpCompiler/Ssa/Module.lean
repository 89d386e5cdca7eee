import ImpCompiler.Ssa.Names

/-! # Modules

A module is a list of functions and string constants.  A function is a list of
blocks, a block a list of instructions and a terminator.  Each instruction that
yields a value has a number in the table of the function's locals; variables live
in slots that `alloca` makes and that are read and written by `load` and `store`. -/

namespace ImpCompiler.Ssa

/-! ## Types and values -/

/-- The type of a value. -/
inductive Ty where
  | void
  | i1
  | i32
  | f64
  | ptr
deriving DecidableEq

namespace Ty

def isInt : Ty → Bool
  | .i1 => true
  | .i32 => true
  | _ => false

def isFloat : Ty → Bool
  | .f64 => true
  | _ => false

/-- The alignment of a slot, in bytes. -/
def align : Ty → Nat
  | .void => 1
  | .i1 => 1
  | .i32 => 4
  | .f64 => 8
  | .ptr => 8

/-- A type as it is written in assembly and in messages. -/
def text : Ty → String
  | .void => "void"
  | .i1 => "i1"
  | .i32 => "i32"
  | .f64 => "double"
  | .ptr => "ptr"

end Ty

/-- An operand. -/
inductive Value where
  | constInt (ty : Ty) (value : Int)
  /-- A float constant, by the bits of its 64-bit form. -/
  | constFloat (bits : UInt64)
  /-- The address of a string constant. -/
  | global (id : Nat)
  /-- A parameter of the current function. -/
  | param (index : Nat) (ty : Ty)
  /-- The result of an instruction of the current function. -/
  | result (id : Nat) (ty : Ty)
deriving DecidableEq

namespace Value

def ty : Value → Ty
  | .constInt ty _ => ty
  | .constFloat _ => .f64
  | .global _ => .ptr
  | .param _ ty => ty
  | .result _ ty => ty

def i32 (value : Int) : Value := .constInt .i32 value

def bool (value : Bool) : Value := .constInt .i1 (if value then 1 else 0)

end Value

/-! ## Instructions -/

/-- An operation on two values of one type. -/
inductive BinaryOp where
  | add
  | sub
  | mul
  | sdiv
  | xor
  | fadd
  | fsub
  | fmul
  | fdiv
deriving DecidableEq

namespace BinaryOp

def isFloat : BinaryOp → Bool
  | .fadd => true
  | .fsub => true
  | .fmul => true
  | .fdiv => true
  | _ => false

def mnemonic : BinaryOp → String
  | .add => "add"
  | .sub => "sub"
  | .mul => "mul"
  | .sdiv => "sdiv"
  | .xor => "xor"
  | .fadd => "fadd"
  | .fsub => "fsub"
  | .fmul => "fmul"
  | .fdiv => "fdiv"

end BinaryOp

/-- A test of two integers, with their signs. -/
inductive IntTest where
  | eq
  | ne
  | slt
  | sle
  | sgt
  | sge
deriving DecidableEq

def IntTest.mnemonic : IntTest → String
  | .eq => "eq"
  | .ne => "ne"
  | .slt => "slt"
  | .sle => "sle"
  | .sgt => "sgt"
  | .sge => "sge"

/-- A test of two floats that fails when either is not a number. -/
inductive FloatTest where
  | oeq
  | one
  | olt
  | ole
  | ogt
  | oge
deriving DecidableEq

def FloatTest.mnemonic : FloatTest → String
  | .oeq => "oeq"
  | .one => "one"
  | .olt => "olt"
  | .ole => "ole"
  | .ogt => "ogt"
  | .oge => "oge"

/-- An instruction.  `result` is the number of the local that holds its value. -/
inductive Instr where
  | alloca (result : Nat) (ty : Ty)
  | load (result : Nat) (ty : Ty) (ptr : Value)
  | store (value ptr : Value)
  | binary (result : Nat) (op : BinaryOp) (lhs rhs : Value)
  | icmp (result : Nat) (test : IntTest) (lhs rhs : Value)
  | fcmp (result : Nat) (test : FloatTest) (lhs rhs : Value)
  | fneg (result : Nat) (operand : Value)
  | zext (result : Nat) (operand : Value) (ty : Ty)
  | call (result : Option Nat) (callee : Nat) (args : List Value)
deriving DecidableEq

namespace Instr

/-- The local that an instruction defines. -/
def result? : Instr → Option Nat
  | .alloca result _ => some result
  | .load result _ _ => some result
  | .store _ _ => none
  | .binary result _ _ _ => some result
  | .icmp result _ _ _ => some result
  | .fcmp result _ _ _ => some result
  | .fneg result _ => some result
  | .zext result _ _ => some result
  | .call result _ _ => result

/-- The values that an instruction uses. -/
def operands : Instr → List Value
  | .alloca _ _ => []
  | .load _ _ ptr => [ptr]
  | .store value ptr => [value, ptr]
  | .binary _ _ lhs rhs => [lhs, rhs]
  | .icmp _ _ lhs rhs => [lhs, rhs]
  | .fcmp _ _ lhs rhs => [lhs, rhs]
  | .fneg _ operand => [operand]
  | .zext _ operand _ => [operand]
  | .call _ _ args => args

def isAlloca : Instr → Bool
  | .alloca _ _ => true
  | _ => false

end Instr

/-- What follows the instructions of a block. -/
inductive Terminator where
  | ret (value : Option Value)
  | branch (target : Nat)
  | condBranch (condition : Value) (yes no : Nat)
deriving DecidableEq

/-- The blocks that control can go to. -/
def Terminator.successors : Terminator → List Nat
  | .ret _ => []
  | .branch target => [target]
  | .condBranch _ yes no => [yes, no]

/-! ## Blocks, functions, modules -/

/-- A block; it has no terminator while it is being written. -/
structure Block where
  label : String
  instrs : Array Instr
  terminator : Option Terminator

namespace Block

/-- A block with nothing in it. -/
def empty (label : String) : Block := ⟨label, #[], none⟩

def isTerminated (b : Block) : Bool := b.terminator.isSome

end Block

/-- Name and type of a parameter. -/
structure Param where
  name : String
  ty : Ty
deriving DecidableEq

/-- Name and type of a value that an instruction yields. -/
structure Local where
  name : String
  ty : Ty
deriving DecidableEq

/-- A function; one without blocks is declared only. -/
structure Func where
  name : String
  params : Array Param
  returnType : Ty
  blocks : Array Block
  locals : Array Local
  names : NameTable

namespace Func

/-- A declared function.  Each parameter takes a name that those before it leave free. -/
def declare (name : String) (params : List Param) (returnType : Ty) : Func :=
  let (names, params) := params.foldl
    (fun (names, done) p =>
      let (free, names) := names.fresh p.name
      (names, done.push ⟨free, p.ty⟩))
    (NameTable.empty, #[])
  ⟨name, params, returnType, #[], #[], names⟩

def isDeclaration (f : Func) : Bool := f.blocks.isEmpty

def paramTypes (f : Func) : List Ty := f.params.toList.map Param.ty

/-- The instructions of all blocks, in order. -/
def instrs (f : Func) : List Instr :=
  f.blocks.toList.flatMap fun b => b.instrs.toList

/-- The first block with the given label. -/
def blockByLabel? (f : Func) (label : String) : Option Block :=
  f.blocks.find? fun b => b.label == label

/-- The function with a new block at its end, labelled `label` or by a numbered form of it. -/
def addBlock (f : Func) (label : String) : Func :=
  let (free, names) := f.names.fresh label
  { f with blocks := f.blocks.push (.empty free), names := names }

/-- The function with a new local, named `name` or by a numbered form of it. -/
def addLocal (f : Func) (name : String) (ty : Ty) : Func :=
  let (free, names) := f.names.fresh name
  { f with locals := f.locals.push ⟨free, ty⟩, names := names }

/-- The function with an instruction at the end of a block. -/
def pushInstr (f : Func) (block : Nat) (i : Instr) : Func :=
  { f with blocks := f.blocks.modify block fun b => { b with instrs := b.instrs.push i } }

/-- The function with an instruction behind the slots at the front of its first block. -/
def insertSlot (f : Func) (i : Instr) : Func :=
  { f with
    blocks := f.blocks.modify 0 fun b =>
      { b with instrs := b.instrs.insertIdxIfInBounds (b.instrs.takeWhile Instr.isAlloca).size i } }

/-- The function with a terminator for a block. -/
def terminate (f : Func) (block : Nat) (t : Terminator) : Func :=
  { f with blocks := f.blocks.modify block fun b => { b with terminator := some t } }

end Func

/-- A string constant; a zero byte follows its bytes in memory. -/
structure Global where
  name : String
  bytes : List UInt8
deriving DecidableEq

/-- The bytes that a constant takes in memory. -/
def Global.size (g : Global) : Nat := g.bytes.length + 1

structure Module where
  name : String
  functions : Array Func
  globals : Array Global

namespace Module

def empty (name : String) : Module := ⟨name, #[], #[]⟩

/-- The number of the first function with the given name. -/
def findFunction? (m : Module) (name : String) : Option Nat :=
  m.functions.findIdx? fun f => f.name == name

/-- The first function with the given name. -/
def functionByName? (m : Module) (name : String) : Option Func :=
  m.functions.find? fun f => f.name == name

/-- The module with one more function. -/
def addFunction (m : Module) (f : Func) : Module :=
  { m with functions := m.functions.push f }

/-- The name of the string constant with the given number. -/
def globalName (id : Nat) : String :=
  if id = 0 then ".str" else ".str." ++ toString id

/-- The module with one more string constant. -/
def addGlobal (m : Module) (bytes : List UInt8) : Module :=
  { m with globals := m.globals.push ⟨globalName m.globals.size, bytes⟩ }

/-- The module with one of its functions changed. -/
def modifyFunction (m : Module) (id : Nat) (change : Func → Func) : Module :=
  { m with functions := m.functions.modify id change }

end Module

end ImpCompiler.Ssa
