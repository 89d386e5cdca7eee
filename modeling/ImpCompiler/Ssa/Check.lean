import ImpCompiler.Ssa.Problem

/-! # The check of a module

`Module.check` finds the first problem of a module, if it has one.  Functions come
in order; in a function, the locals that its instructions define come first, then
block by block the instructions and the terminator; in an instruction, its operands
come first and its own rule after them. -/

namespace ImpCompiler.Ssa

/-- The instruction that defines each local of a function. -/
abbrev Definitions := Array (Option Instr)

/-- Enters an instruction as the definition of its result. -/
def enterDefinition (f : Func) (defs : Definitions) (i : Instr) : Except Problem Definitions :=
  match i.result? with
  | none => .ok defs
  | some id =>
    match f.locals[id]? with
    | none => .error (.unknownResult id)
    | some l =>
      match defs[id]? with
      | some (some _) => .error (.valueRedefined l.name)
      | _ => .ok (defs.setIfInBounds id (some i))

/-- The definitions of a function, each local having at most one. -/
def Func.definitions (f : Func) : Except Problem Definitions :=
  f.instrs.foldlM (enterDefinition f) (Array.replicate f.locals.size none)

/-- The type that the slot `id` was made for, if that local is a slot. -/
def slotType? (defs : Definitions) (id : Nat) : Option Ty :=
  match defs[id]? with
  | some (some (.alloca _ ty)) => some ty
  | _ => none

/-! ## Operands -/

/-- A reference has to point to something that exists, and to use it with its type. -/
def checkValue (m : Module) (f : Func) (defs : Definitions) (block : String) :
    Value → Except Problem Unit
  | .constInt ty _ => if ty.isInt then .ok () else .error (.constantType ty block)
  | .constFloat _ => .ok ()
  | .global id =>
    match m.globals[id]? with
    | some _ => .ok ()
    | none => .error (.unknownGlobal id block)
  | .param index ty =>
    match f.params[index]? with
    | some p => if p.ty = ty then .ok () else .error (.parameterType index block)
    | none => .error (.unknownParameter index block)
  | .result id ty =>
    match f.locals[id]? with
    | none => .error (.unknownValue id block)
    | some l =>
      match defs[id]? with
      | some (some _) =>
        if l.ty = ty then .ok () else .error (.valueType l.name ty l.ty block)
      | _ => .error (.undefinedValue l.name block)

/-- An operand has to have the type that its role asks for. -/
def expectType (role : Role) (expected : Ty) (block : String) (v : Value) :
    Except Problem Unit :=
  if v.ty = expected then .ok () else .error (.operandType role expected v.ty block)

/-! ## Instructions -/

/-- The rule for a call: the callee exists, the arguments fit its parameters, and there
    is a result just when it returns something. -/
def checkCall (m : Module) (block : String) (result : Option Nat) (callee : Nat)
    (args : List Value) : Except Problem Unit :=
  match m.functions[callee]? with
  | none => .error (.unknownCallee callee block)
  | some target =>
    if target.params.size ≠ args.length then
      .error (.argumentCount target.name args.length target.params.size)
    else do
      (args.zip target.paramTypes).forM fun (arg, ty) => expectType .callArgument ty block arg
      if result.isSome = decide (target.returnType = .void) then
        .error (.callResult target.name target.returnType)
      else
        .ok ()

/-- The rule for an instruction, apart from its operands. -/
def checkRule (m : Module) (defs : Definitions) (block : String) : Instr → Except Problem Unit
  | .alloca _ ty => if ty = .void then .error (.voidSlot block) else .ok ()
  | .load _ _ ptr => expectType .loadAddress .ptr block ptr
  | .store value ptr => do
    expectType .storeAddress .ptr block ptr
    match ptr with
    | .result id _ =>
      match slotType? defs id with
      | some ty => expectType .storedValue ty block value
      | none => .ok ()
    | _ => .ok ()
  | .binary _ op lhs rhs => do
    expectType .rightOperand lhs.ty block rhs
    if (if op.isFloat then lhs.ty.isFloat else lhs.ty.isInt) then
      .ok ()
    else
      .error (.operatorType op lhs.ty block)
  | .icmp _ _ lhs rhs => do
    expectType .rightOperand lhs.ty block rhs
    if lhs.ty.isInt then .ok () else .error (.comparedType lhs.ty block)
  | .fcmp _ _ lhs rhs => do
    expectType .leftOperand .f64 block lhs
    expectType .rightOperand .f64 block rhs
  | .fneg _ operand => expectType .negatedOperand .f64 block operand
  | .zext _ operand ty =>
    if operand.ty.isInt && ty.isInt then .ok () else .error (.extension operand.ty ty block)
  | .call result callee args => checkCall m block result callee args

def checkInstr (m : Module) (f : Func) (defs : Definitions) (block : String) (i : Instr) :
    Except Problem Unit := do
  i.operands.forM (checkValue m f defs block)
  checkRule m defs block i

/-! ## Terminators, functions, modules -/

def checkTarget (f : Func) (block : String) (target : Nat) : Except Problem Unit :=
  match f.blocks[target]? with
  | some _ => .ok ()
  | none => .error (.unknownTarget target block)

def checkTerminator (m : Module) (f : Func) (defs : Definitions) (block : String)
    (t : Terminator) : Except Problem Unit := do
  t.successors.forM (checkTarget f block)
  match t with
  | .ret none =>
    if f.returnType = .void then .ok () else .error (.missingReturnValue f.returnType block)
  | .ret (some value) =>
    checkValue m f defs block value
    expectType .returnValue f.returnType block value
  | .branch _ => .ok ()
  | .condBranch condition _ _ =>
    checkValue m f defs block condition
    expectType .branchCondition .i1 block condition

def checkBlock (m : Module) (f : Func) (defs : Definitions) (b : Block) :
    Except Problem Unit := do
  b.instrs.toList.forM (checkInstr m f defs b.label)
  match b.terminator with
  | some t => checkTerminator m f defs b.label t
  | none => .error (.missingTerminator b.label)

/-- The check of one function; there is nothing to check in a declaration. -/
def checkFunc (m : Module) (f : Func) : Except Problem Unit :=
  if f.isDeclaration then
    .ok ()
  else do
    let defs ← f.definitions
    f.blocks.toList.forM (checkBlock m f defs)

/-- The check of the functions `fs`, when those before them have the names `seen`. -/
def checkFuncs (m : Module) : List String → List Func → Except CheckError Unit
  | _, [] => .ok ()
  | seen, f :: fs =>
    if f.name ∈ seen then
      .error ⟨f.name, .functionRedefined⟩
    else
      match checkFunc m f with
      | .error p => .error ⟨f.name, p⟩
      | .ok () => checkFuncs m (f.name :: seen) fs

/-- The first problem of a module, if it has one. -/
def Module.check (m : Module) : Except CheckError Unit :=
  checkFuncs m [] m.functions.toList

end ImpCompiler.Ssa
