import ImpCompiler.Json
import ImpCompiler.Ssa.Module
import ImpCompiler.Text.Hex

/-! # The JSON form of modules

A case of a type is an object with one field, named for the case; a case without
parts is its name.  Floats are written as the sixteen hexadecimal digits of their
bits, so that every float has a form of its own.  The names that a function has in
use are not part of the form: a module that was read is there to be looked at. -/

namespace ImpCompiler.Ssa

/-- The case with the given name in a table. -/
def caseNamed? {α : Type} (table : List (String × α)) (j : Json) : Option α :=
  j.str?.bind fun name => table.lookup name

/-! ## Types and values -/

namespace Ty

def caseName : Ty → String
  | .void => "Void"
  | .i1 => "I1"
  | .i32 => "I32"
  | .f64 => "F64"
  | .ptr => "Ptr"

def toJson (ty : Ty) : Json := .str ty.caseName

def ofJson? : Json → Option Ty :=
  caseNamed? ([.void, .i1, .i32, .f64, .ptr].map fun ty => (Ty.caseName ty, ty))

end Ty

/-- The bits of a float, written as sixteen hexadecimal digits. -/
def bitsToJson (bits : UInt64) : Json := .str (Hex.text 16 bits.toNat)

def bitsOfJson? (j : Json) : Option UInt64 := do
  let digits := (← j.str?).toList
  guard (digits.length = 16)
  return UInt64.ofNat (← Hex.value? digits)

/-- An integer of 64 bits with its sign. -/
def word64? (j : Json) : Option Int := do
  let n ← j.int?
  guard (-0x8000000000000000 ≤ n ∧ n < 0x8000000000000000)
  return n

namespace Value

def toJson : Value → Json
  | .constInt ty value => .tagged "ConstInt" [("ty", ty.toJson), ("value", .int value)]
  | .constFloat bits => .obj [("ConstFloat", bitsToJson bits)]
  | .global id => .obj [("Global", .nat id)]
  | .param index ty => .tagged "Param" [("index", .nat index), ("ty", ty.toJson)]
  | .result id ty => .tagged "Local" [("id", .nat id), ("ty", ty.toJson)]

def ofJson? : Json → Option Value
  | .obj [(tag, node)] =>
    match tag with
    | "ConstInt" => do
      return .constInt (← node.get? "ty" Ty.ofJson?) (← node.get? "value" word64?)
    | "ConstFloat" => do
      return .constFloat (← bitsOfJson? node)
    | "Global" => do
      return .global (← node.nat?)
    | "Param" => do
      return .param (← node.get? "index" Json.nat?) (← node.get? "ty" Ty.ofJson?)
    | "Local" => do
      return .result (← node.get? "id" Json.nat?) (← node.get? "ty" Ty.ofJson?)
    | _ => none
  | _ => none

end Value

/-! ## Instructions -/

namespace BinaryOp

def caseName : BinaryOp → String
  | .add => "Add"
  | .sub => "Sub"
  | .mul => "Mul"
  | .sdiv => "SDiv"
  | .xor => "Xor"
  | .fadd => "FAdd"
  | .fsub => "FSub"
  | .fmul => "FMul"
  | .fdiv => "FDiv"

def ofJson? : Json → Option BinaryOp :=
  caseNamed? ([.add, .sub, .mul, .sdiv, .xor, .fadd, .fsub, .fmul, .fdiv].map fun op =>
    (BinaryOp.caseName op, op))

end BinaryOp

namespace IntTest

def caseName : IntTest → String
  | .eq => "Eq"
  | .ne => "Ne"
  | .slt => "Slt"
  | .sle => "Sle"
  | .sgt => "Sgt"
  | .sge => "Sge"

def ofJson? : Json → Option IntTest :=
  caseNamed? ([.eq, .ne, .slt, .sle, .sgt, .sge].map fun test => (IntTest.caseName test, test))

end IntTest

namespace FloatTest

def caseName : FloatTest → String
  | .oeq => "Oeq"
  | .one => "One"
  | .olt => "Olt"
  | .ole => "Ole"
  | .ogt => "Ogt"
  | .oge => "Oge"

def ofJson? : Json → Option FloatTest :=
  caseNamed? ([.oeq, .one, .olt, .ole, .ogt, .oge].map fun test => (FloatTest.caseName test, test))

end FloatTest

namespace Instr

def toJson : Instr → Json
  | .alloca result ty => .tagged "Alloca" [("result", .nat result), ("ty", ty.toJson)]
  | .load result ty ptr =>
    .tagged "Load" [("result", .nat result), ("ty", ty.toJson), ("ptr", ptr.toJson)]
  | .store value ptr => .tagged "Store" [("value", value.toJson), ("ptr", ptr.toJson)]
  | .binary result op lhs rhs =>
    .tagged "Binary"
      [("result", .nat result), ("op", .str op.caseName), ("lhs", lhs.toJson), ("rhs", rhs.toJson)]
  | .icmp result test lhs rhs =>
    .tagged "ICmp"
      [("result", .nat result), ("predicate", .str test.caseName), ("lhs", lhs.toJson),
        ("rhs", rhs.toJson)]
  | .fcmp result test lhs rhs =>
    .tagged "FCmp"
      [("result", .nat result), ("predicate", .str test.caseName), ("lhs", lhs.toJson),
        ("rhs", rhs.toJson)]
  | .fneg result operand =>
    .tagged "FNeg" [("result", .nat result), ("operand", operand.toJson)]
  | .zext result operand ty =>
    .tagged "ZExt" [("result", .nat result), ("operand", operand.toJson), ("ty", ty.toJson)]
  | .call result callee args =>
    .tagged "Call"
      [("result", .optional .nat result), ("callee", .nat callee),
        ("args", .arr (args.map Value.toJson))]

def ofJson? : Json → Option Instr
  | .obj [(tag, node)] =>
    let result := node.get? "result" Json.nat?
    let ty := node.get? "ty" Ty.ofJson?
    let value (key : String) := node.get? key Value.ofJson?
    match tag with
    | "Alloca" => do
      return .alloca (← result) (← ty)
    | "Load" => do
      return .load (← result) (← ty) (← value "ptr")
    | "Store" => do
      return .store (← value "value") (← value "ptr")
    | "Binary" => do
      return .binary (← result) (← node.get? "op" BinaryOp.ofJson?) (← value "lhs") (← value "rhs")
    | "ICmp" => do
      return .icmp (← result) (← node.get? "predicate" IntTest.ofJson?) (← value "lhs")
        (← value "rhs")
    | "FCmp" => do
      return .fcmp (← result) (← node.get? "predicate" FloatTest.ofJson?) (← value "lhs")
        (← value "rhs")
    | "FNeg" => do
      return .fneg (← result) (← value "operand")
    | "ZExt" => do
      return .zext (← result) (← value "operand") (← ty)
    | "Call" => do
      return .call (← node.getOptional? "result" Json.nat?) (← node.get? "callee" Json.nat?)
        (← node.get? "args" fun list => list.list? Value.ofJson?)
    | _ => none
  | _ => none

end Instr

namespace Terminator

def toJson : Terminator → Json
  | .ret value => .obj [("Return", .optional Value.toJson value)]
  | .branch target => .obj [("Branch", .nat target)]
  | .condBranch condition yes no =>
    .tagged "CondBranch"
      [("condition", condition.toJson), ("then_block", .nat yes), ("else_block", .nat no)]

def ofJson? : Json → Option Terminator
  | .obj [(tag, node)] =>
    match tag with
    | "Return" =>
      match node with
      | .null => some (.ret none)
      | node => do
        return .ret (some (← Value.ofJson? node))
    | "Branch" => do
      return .branch (← node.nat?)
    | "CondBranch" => do
      return .condBranch (← node.get? "condition" Value.ofJson?)
        (← node.get? "then_block" Json.nat?) (← node.get? "else_block" Json.nat?)
    | _ => none
  | _ => none

end Terminator

/-! ## Blocks, functions, modules -/

namespace Block

def toJson (b : Block) : Json :=
  .obj
    [("label", .str b.label), ("instructions", .arr (b.instrs.toList.map Instr.toJson)),
      ("terminator", .optional Terminator.toJson b.terminator)]

def ofJson? (j : Json) : Option Block := do
  let label ← j.get? "label" Json.str?
  let instrs ← j.get? "instructions" fun list => list.list? Instr.ofJson?
  let terminator ← j.getOptional? "terminator" Terminator.ofJson?
  return ⟨label, instrs.toArray, terminator⟩

end Block

namespace Param

def toJson (p : Param) : Json :=
  .obj [("name", .str p.name), ("ty", p.ty.toJson)]

def ofJson? (j : Json) : Option Param := do
  return ⟨← j.get? "name" Json.str?, ← j.get? "ty" Ty.ofJson?⟩

end Param

namespace Local

def toJson (l : Local) : Json :=
  .obj [("name", .str l.name), ("ty", l.ty.toJson)]

def ofJson? (j : Json) : Option Local := do
  return ⟨← j.get? "name" Json.str?, ← j.get? "ty" Ty.ofJson?⟩

end Local

namespace Func

def toJson (f : Func) : Json :=
  .obj
    [("name", .str f.name), ("params", .arr (f.params.toList.map Param.toJson)),
      ("return_type", f.returnType.toJson), ("blocks", .arr (f.blocks.toList.map Block.toJson)),
      ("locals", .arr (f.locals.toList.map Local.toJson))]

def ofJson? (j : Json) : Option Func := do
  let name ← j.get? "name" Json.str?
  let params ← j.get? "params" fun list => list.list? Param.ofJson?
  let returnType ← j.get? "return_type" Ty.ofJson?
  let blocks ← j.get? "blocks" fun list => list.list? Block.ofJson?
  let locals ← j.get? "locals" fun list => list.list? Local.ofJson?
  return ⟨name, params.toArray, returnType, blocks.toArray, locals.toArray, .empty⟩

end Func

/-- A number below 256. -/
def byteOfJson? (j : Json) : Option UInt8 := do
  let n ← j.nat?
  guard (n < 256)
  return UInt8.ofNat n

namespace Global

def toJson (g : Global) : Json :=
  .obj [("name", .str g.name), ("bytes", .arr (g.bytes.map fun b => .nat b.toNat))]

def ofJson? (j : Json) : Option Global := do
  let name ← j.get? "name" Json.str?
  let bytes ← j.get? "bytes" fun list => list.list? byteOfJson?
  return ⟨name, bytes⟩

end Global

namespace Module

def toJson (m : Module) : Json :=
  .obj
    [("name", .str m.name), ("functions", .arr (m.functions.toList.map Func.toJson)),
      ("globals", .arr (m.globals.toList.map Global.toJson))]

def ofJson? (j : Json) : Option Module := do
  let name ← j.get? "name" Json.str?
  let functions ← j.get? "functions" fun list => list.list? Func.ofJson?
  let globals ← j.get? "globals" fun list => list.list? Global.ofJson?
  return ⟨name, functions.toArray, globals.toArray⟩

end Module

end ImpCompiler.Ssa
