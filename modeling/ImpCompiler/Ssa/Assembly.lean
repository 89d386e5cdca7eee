import ImpCompiler.Ssa.Module
import ImpCompiler.Text.Hex

/-! # The text of a module

A module in the assembly language of LLVM with opaque pointers.  A reference to
something that the module does not have is written as a placeholder in angle
brackets, so every module has a text. -/

namespace ImpCompiler.Ssa

/-! ## String constants -/

/-- Whether a byte stands for itself between the quotes of a string constant. -/
def isPlainByte (b : UInt8) : Bool :=
  0x20 ≤ b && b ≤ 0x7E && b != 0x22 && b != 0x5C

/-- A byte between the quotes of a string constant. -/
def byteText (b : UInt8) : List Char :=
  if isPlainByte b then [Char.ofNat b.toNat] else '\\' :: Hex.digits 2 b.toNat

/-- The bytes of a string constant, with the zero byte that ends it. -/
def bytesText (bytes : List UInt8) : String :=
  String.ofList (bytes.flatMap byteText ++ ['\\', '0', '0'])

def Global.text (g : Global) : String :=
  "@" ++ g.name ++ " = private unnamed_addr constant [" ++ toString g.size ++ " x i8] c\"" ++
    bytesText g.bytes ++ "\", align 1"

/-! ## Instructions -/

/-- The name of the local that an instruction defines. -/
def Func.resultText (f : Func) (id : Nat) : String :=
  match f.locals[id]? with
  | some l => "%" ++ l.name
  | none => "%<bad-local>"

def Func.labelText (f : Func) (id : Nat) : String :=
  match f.blocks[id]? with
  | some b => "%" ++ b.label
  | none => "%<bad-block>"

/-- An operand, without its type. -/
def Value.text (m : Module) (f : Func) : Value → String
  | .constInt .i1 value => if value = 0 then "false" else "true"
  | .constInt _ value => toString value
  | .constFloat bits => "0x" ++ Hex.text 16 bits.toNat
  | .global id =>
    match m.globals[id]? with
    | some g => "@" ++ g.name
    | none => "@<bad-global-" ++ toString id ++ ">"
  | .param index _ =>
    match f.params[index]? with
    | some p => "%" ++ p.name
    | none => "%<bad-param-" ++ toString index ++ ">"
  | .result id _ =>
    match f.locals[id]? with
    | some l => "%" ++ l.name
    | none => "%<bad-local-" ++ toString id ++ ">"

/-- An operand behind its type. -/
def Value.typedText (m : Module) (f : Func) (v : Value) : String :=
  v.ty.text ++ " " ++ v.text m f

def Instr.text (m : Module) (f : Func) : Instr → String
  | .alloca result ty =>
    f.resultText result ++ " = alloca " ++ ty.text ++ ", align " ++ toString ty.align
  | .load result ty ptr =>
    f.resultText result ++ " = load " ++ ty.text ++ ", ptr " ++ ptr.text m f ++ ", align " ++
      toString ty.align
  | .store value ptr =>
    "store " ++ value.typedText m f ++ ", ptr " ++ ptr.text m f ++ ", align " ++
      toString value.ty.align
  | .binary result op lhs rhs =>
    f.resultText result ++ " = " ++ op.mnemonic ++ " " ++ lhs.typedText m f ++ ", " ++ rhs.text m f
  | .icmp result test lhs rhs =>
    f.resultText result ++ " = icmp " ++ test.mnemonic ++ " " ++ lhs.typedText m f ++ ", " ++
      rhs.text m f
  | .fcmp result test lhs rhs =>
    f.resultText result ++ " = fcmp " ++ test.mnemonic ++ " " ++ lhs.typedText m f ++ ", " ++
      rhs.text m f
  | .fneg result operand => f.resultText result ++ " = fneg " ++ operand.typedText m f
  | .zext result operand ty =>
    f.resultText result ++ " = zext " ++ operand.typedText m f ++ " to " ++ ty.text
  | .call result callee args =>
    let target :=
      match m.functions[callee]? with
      | some target => target.returnType.text ++ " @" ++ target.name
      | none => "void @<bad-function>"
    let assigned :=
      match result with
      | some result => f.resultText result ++ " = "
      | none => ""
    assigned ++ "call " ++ target ++ "(" ++ ", ".intercalate (args.map (Value.typedText m f)) ++ ")"

def Terminator.text (m : Module) (f : Func) : Terminator → String
  | .ret none => "ret void"
  | .ret (some value) => "ret " ++ value.typedText m f
  | .branch target => "br label " ++ f.labelText target
  | .condBranch condition yes no =>
    "br i1 " ++ condition.text m f ++ ", label " ++ f.labelText yes ++ ", label " ++ f.labelText no

/-! ## Blocks, functions, modules -/

/-- The lines of a block: its label, its instructions and its terminator. -/
def Block.lines (m : Module) (f : Func) (b : Block) : List String :=
  (b.label ++ ":") :: b.instrs.toList.map (fun i => "  " ++ i.text m f) ++
    match b.terminator with
    | some t => ["  " ++ t.text m f]
    | none => []

/-- The lines of several blocks, with an empty line before each but the first. -/
def blockLines (m : Module) (f : Func) : List Block → List String
  | [] => []
  | [b] => b.lines m f
  | b :: bs => b.lines m f ++ "" :: blockLines m f bs

def Func.lines (m : Module) (f : Func) : List String :=
  let head := f.returnType.text ++ " @" ++ f.name ++ "("
  if f.isDeclaration then
    ["declare " ++ head ++ ", ".intercalate (f.paramTypes.map Ty.text) ++ ")"]
  else
    let params := f.params.toList.map fun p => p.ty.text ++ " %" ++ p.name
    ("define " ++ head ++ ", ".intercalate params ++ ") \x7b") ::
      blockLines m f f.blocks.toList ++ ["\x7d"]

/-- The lines of a module: its name, its string constants, and its functions, each
    group and each function behind an empty line. -/
def Module.lines (m : Module) : List String :=
  let globals := m.globals.toList.map Global.text
  ["; ModuleID = '" ++ m.name ++ "'", "source_filename = \"" ++ m.name ++ "\""] ++
    (if globals.isEmpty then [] else "" :: globals) ++
    m.functions.toList.flatMap fun f => "" :: f.lines m

/-- The text of a module. -/
def Module.assembly (m : Module) : String :=
  m.lines.foldl (fun text line => text ++ line ++ "\n") ""

theorem Module.assembly_eq_join (m : Module) : m.assembly = String.join (m.lines.map (· ++ "\n")) := by
  rw [assembly, String.join, List.foldl_map]
  simp only [String.append_assoc]

end ImpCompiler.Ssa
