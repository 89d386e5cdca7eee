import ImpCompiler.Proofs.Semantics.Source
import ImpCompiler.Proofs.Ssa.Growth

/-! # Execution of functions

An activation of a function has a frame: what its locals hold, what is in its slots, and the
calls made so far.  Instructions are executed in order, then the terminator returns a value
or names the next block.

Each `alloca` makes a new slot, with nothing in it.  To read what is not there, to read a slot
with another type than that of its contents, and to divide where there is no quotient is
to be stuck.

`Activation.run` executes with a bound on the number of blocks; a function ends with a result if
it does so within some bound. -/

namespace ImpCompiler

open Ssa

/-- The type of a value. -/
def Val.ty {R A : Type} : Val R A → Ty
  | .i1 _ => .i1
  | .i32 _ => .i32
  | .real _ => .f64
  | .address _ => .ptr

namespace Ssa

variable {R A : Type}

/-! ## Operations -/

namespace BinaryOp

def onWords {w : Nat} : BinaryOp → BitVec w → BitVec w → Option (BitVec w)
  | .add, a, b => some (a + b)
  | .sub, a, b => some (a - b)
  | .mul, a, b => some (a * b)
  | .sdiv, a, b => signedQuotient a b
  | .xor, a, b => some (a ^^^ b)
  | _, _, _ => none

def onReals (I : Interpretation R A) : BinaryOp → R → R → Option R
  | .fadd, x, y => some (I.add x y)
  | .fsub, x, y => some (I.sub x y)
  | .fmul, x, y => some (I.mul x y)
  | .fdiv, x, y => some (I.div x y)
  | _, _, _ => none

def apply (I : Interpretation R A) (op : BinaryOp) : Val R A → Val R A → Option (Val R A)
  | .i1 a, .i1 b => (op.onWords a b).map .i1
  | .i32 a, .i32 b => (op.onWords a b).map .i32
  | .real x, .real y => (op.onReals I x y).map .real
  | _, _ => none

end BinaryOp

namespace IntTest

def onWords {w : Nat} : IntTest → BitVec w → BitVec w → Bool
  | .eq, a, b => a == b
  | .ne, a, b => a != b
  | .slt, a, b => a.slt b
  | .sle, a, b => a.sle b
  | .sgt, a, b => b.slt a
  | .sge, a, b => b.sle a

def apply (test : IntTest) : Val R A → Val R A → Option (Val R A)
  | .i1 a, .i1 b => some (.ofBool (test.onWords a b))
  | .i32 a, .i32 b => some (.ofBool (test.onWords a b))
  | _, _ => none

end IntTest

namespace FloatTest

def onReals (I : Interpretation R A) : FloatTest → R → R → Bool
  | .oeq => I.eq
  | .one => I.ne
  | .olt => I.lt
  | .ole => I.le
  | .ogt => I.gt
  | .oge => I.ge

def apply (I : Interpretation R A) (test : FloatTest) : Val R A → Val R A → Option (Val R A)
  | .real x, .real y => some (.ofBool (test.onReals I x y))
  | _, _ => none

end FloatTest

/-! ## Frames -/

/-- What a local holds: a value, or the place of a slot. -/
inductive Word (R A : Type) where
  | value (x : Val R A)
  | slot (k : Nat)

/-- The state of an activation. -/
structure Frame (R A : Type) where
  locals : Nat → Option (Word R A)
  slots : Nat → Option (Val R A)
  /-- How many slots have been made. -/
  made : Nat
  trace : List (Event R A)

namespace Frame

/-- The frame at the start of a call. -/
def start : Frame R A := ⟨fun _ => none, fun _ => none, 0, []⟩

def setLocal (frame : Frame R A) (id : Nat) (w : Word R A) : Frame R A :=
  { frame with locals := fun j => if j = id then some w else frame.locals j }

def setSlot (frame : Frame R A) (k : Nat) (x : Val R A) : Frame R A :=
  { frame with slots := fun j => if j = k then some x else frame.slots j }

end Frame

/-- A call of a function of a module. -/
structure Activation (R A : Type) where
  interpretation : Interpretation R A
  module : Module
  args : List (Val R A)

namespace Activation

variable (act : Activation R A)

/-! ## Instructions -/

/-- What an operand stands for. -/
def word (frame : Frame R A) : Value → Option (Word R A)
  | .constInt .i1 n => some (.value (.i1 (BitVec.ofInt 1 n)))
  | .constInt .i32 n => some (.value (.i32 (BitVec.ofInt 32 n)))
  | .constInt _ _ => none
  | .constFloat bits => some (.value (.real (act.interpretation.real bits)))
  | .global id => act.module.globals[id]?.map fun g => .value (.address (act.interpretation.text g.bytes))
  | .param index _ => act.args[index]?.map .value
  | .result id _ => frame.locals id

/-- The value of an operand. -/
def read (frame : Frame R A) (v : Value) : Option (Val R A) :=
  match act.word frame v with
  | some (.value x) => some x
  | _ => none

/-- The slot that an operand is the place of. -/
def place (frame : Frame R A) (v : Value) : Option Nat :=
  match act.word frame v with
  | some (.slot k) => some k
  | _ => none

/-- Executes an instruction. -/
def exec (frame : Frame R A) : Instr → Option (Frame R A)
  | .alloca result _ =>
    some { frame.setLocal result (.slot frame.made) with made := frame.made + 1 }
  | .load result ty ptr => do
    let k ← act.place frame ptr
    let x ← frame.slots k
    if x.ty = ty then some (frame.setLocal result (.value x)) else none
  | .store value ptr => do
    let x ← act.read frame value
    let k ← act.place frame ptr
    return frame.setSlot k x
  | .binary result op lhs rhs => do
    let x ← act.read frame lhs
    let y ← act.read frame rhs
    let z ← op.apply act.interpretation x y
    return frame.setLocal result (.value z)
  | .icmp result test lhs rhs => do
    let x ← act.read frame lhs
    let y ← act.read frame rhs
    let z ← test.apply x y
    return frame.setLocal result (.value z)
  | .fcmp result test lhs rhs => do
    let x ← act.read frame lhs
    let y ← act.read frame rhs
    let z ← test.apply act.interpretation x y
    return frame.setLocal result (.value z)
  | .fneg result operand => do
    match ← act.read frame operand with
    | .real x => return frame.setLocal result (.value (.real (act.interpretation.neg x)))
    | _ => none
  | .zext result operand ty => do
    match ← act.read frame operand, ty with
    | .i1 b, .i32 => return frame.setLocal result (.value (.i32 (b.setWidth 32)))
    | _, _ => none
  | .call result callee args => do
    let xs ← args.mapM (act.read frame)
    let f ← act.module.functions[callee]?
    let r ← act.interpretation.call frame.trace ⟨f.name, xs⟩
    let frame := { frame with trace := frame.trace ++ [⟨f.name, xs⟩] }
    match result with
    | none => return frame
    | some id => return frame.setLocal id (.value (.i32 r))

/-! ## Blocks -/

/-- The block that a terminator leads to. -/
def next (frame : Frame R A) : Terminator → Option Nat
  | .ret _ => none
  | .branch target => some target
  | .condBranch condition yes no => do
    match ← act.read frame condition with
    | .i1 b => return if b = 1 then yes else no
    | _ => none

/-- Executes the instructions `rest`, the terminator of the block `b` and what follows, all in
    all at most `fuel` blocks; gives the calls made and the value returned. -/
def run (f : Func) : (fuel : Nat) → (b : Nat) → (rest : List Instr) → Frame R A →
    Option (List (Event R A) × Val R A)
  | 0, _, _, _ => none
  | fuel + 1, b, rest, frame => do
    let frame ← rest.foldlM act.exec frame
    match ← f.terminator? b with
    | .ret value =>
      let x ← value.bind (act.read frame)
      return (frame.trace, x)
    | t =>
      let target ← act.next frame t
      let block ← f.blocks[target]?
      run f fuel target block.instrs.toList frame

/-- The function `f`, executed from its first block on, ends: it makes the calls `t` and returns
    `r`. -/
def Runs (f : Func) (t : List (Event R A)) (r : Val R A) : Prop :=
  ∃ fuel block, f.blocks[0]? = some block ∧
    act.run f fuel 0 block.instrs.toList .start = some (t, r)

/-! ## Steps of a run -/

section steps

variable {act} {f : Func} {fuel b : Nat} {frame : Frame R A}

theorem run_cons (i : Instr) (rest : List Instr) :
    act.run f fuel b (i :: rest) frame =
      (act.exec frame i).bind fun frame' => act.run f fuel b rest frame' := by
  cases fuel with
  | zero => cases act.exec frame i <;> rfl
  | succ fuel =>
    simp only [run, List.foldlM_cons]
    cases act.exec frame i <;> rfl

theorem run_ret {value : Option Value} (ends : f.terminator? b = some (.ret value)) :
    act.run f (fuel + 1) b [] frame =
      (value.bind (act.read frame)).map fun x => (frame.trace, x) := by
  simp only [run, List.foldlM_nil, ends, Option.pure_def, Option.bind_eq_bind, Option.bind_some,
    Option.map_eq_bind]
  rfl

theorem run_next {t : Terminator} (ends : f.terminator? b = some t)
    (returns : ∀ value, t ≠ .ret value) :
    act.run f (fuel + 1) b [] frame = (act.next frame t).bind fun target =>
      f.blocks[target]?.bind fun block => act.run f fuel target block.instrs.toList frame := by
  simp only [run, List.foldlM_nil, ends]
  cases t with
  | ret value => exact absurd rfl (returns value)
  | branch target => rfl
  | condBranch condition yes no => rfl

section operands

variable {lhs rhs : Value} {x y : Val R A} (left : act.read frame lhs = some x)
variable (right : act.read frame rhs = some y) (k : Nat)

include left right

theorem exec_binary (op : BinaryOp) : act.exec frame (.binary k op lhs rhs) =
    (op.apply act.interpretation x y).map fun z => frame.setLocal k (.value z) := by
  simp only [exec, left, right, Option.bind_eq_bind, Option.bind_some, Option.map_eq_bind]
  rfl

theorem exec_icmp (test : IntTest) : act.exec frame (.icmp k test lhs rhs) =
    (test.apply x y).map fun z => frame.setLocal k (.value z) := by
  simp only [exec, left, right, Option.bind_eq_bind, Option.bind_some, Option.map_eq_bind]
  rfl

theorem exec_fcmp (test : FloatTest) : act.exec frame (.fcmp k test lhs rhs) =
    (test.apply act.interpretation x y).map fun z => frame.setLocal k (.value z) := by
  simp only [exec, left, right, Option.bind_eq_bind, Option.bind_some, Option.map_eq_bind]
  rfl

end operands

theorem exec_call {args : List Value} {xs : List (Val R A)} {callee : Nat} {g : Func}
    (values : args.mapM (act.read frame) = some xs)
    (found : act.module.functions[callee]? = some g) (result : Option Nat) :
    act.exec frame (.call result callee args) =
      (act.interpretation.call frame.trace ⟨g.name, xs⟩).map fun r =>
        match result with
        | none => { frame with trace := frame.trace ++ [⟨g.name, xs⟩] }
        | some id => Frame.setLocal { frame with trace := frame.trace ++ [⟨g.name, xs⟩] } id
            (.value (.i32 r)) := by
  simp only [exec, values, found, Option.bind_eq_bind, Option.bind_some, Option.map_eq_bind]
  cases result <;> rfl

end steps

end Activation

end Ssa

end ImpCompiler
