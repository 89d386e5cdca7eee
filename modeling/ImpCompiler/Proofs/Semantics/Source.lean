import ImpCompiler.Number.Literal
import ImpCompiler.Output
import ImpCompiler.Tree

/-! # The meaning of programs

What the body of a function does when it is called: the calls that it makes, printing
included, and the value that it returns.

Truth values and numbers are words of 1 and 32 bits with wrapping arithmetic.  Floats, texts and
calls are left open: an `Interpretation` says what operations on floats do, where texts are,
and what a call returns, given all calls before it.  So one function is looked at at a time, and
what its callees do is the interpretation's business.

A name stands for the variable that the text declares for it, the innermost one first.  Each
declaration in the text is one variable of the activation, and to execute it is to give that
variable its first value: `Layout` numbers the variables in the order of their declarations
and says which of them are visible.  On programs that are parsed, this is the same as an
environment whose bindings end with their blocks (`runs_iff_runsIn_of_parseTokens`).

Evaluation of an expression is a partial function: where it is not defined, the program is
stuck.  Execution of a statement is a relation, since loops need not end. -/

namespace ImpCompiler

/-! ## Values -/

/-- What a program computes with: floats are of the type `R`, addresses of the type `A`. -/
inductive Val (R A : Type) where
  | i1 (bits : BitVec 1)
  | i32 (bits : BitVec 32)
  | real (value : R)
  | address (place : A)
deriving DecidableEq

/-- A call of a function. -/
structure Event (R A : Type) where
  callee : String
  args : List (Val R A)
deriving DecidableEq

/-- The operations on floats, the places of texts, and the results of calls. -/
structure Interpretation (R A : Type) where
  real : UInt64 → R
  add : R → R → R
  sub : R → R → R
  mul : R → R → R
  div : R → R → R
  neg : R → R
  eq : R → R → Bool
  ne : R → R → Bool
  lt : R → R → Bool
  le : R → R → Bool
  gt : R → R → Bool
  ge : R → R → Bool
  text : List UInt8 → A
  /-- What a call returns, given the calls before it; it may not return. -/
  call : List (Event R A) → Event R A → Option (BitVec 32)

/-- Division of signed words, toward zero; there is no quotient by zero, nor one that does not
    fit the width. -/
def signedQuotient {w : Nat} (a b : BitVec w) : Option (BitVec w) :=
  if b = 0 ∨ a = BitVec.intMin w ∧ b = BitVec.allOnes w then none else some (a.sdiv b)

variable {R A : Type} (I : Interpretation R A)

namespace Val

/-- Arithmetic on words of one width. -/
def wordArithmetic {w : Nat} (op : String) (a b : BitVec w) : Option (BitVec w) :=
  match op with
  | "+" => some (a + b)
  | "-" => some (a - b)
  | "*" => some (a * b)
  | "/" => signedQuotient a b
  | _ => none

/-- Comparison of signed words. -/
def wordComparison {w : Nat} (op : String) (a b : BitVec w) : Option Bool :=
  match op with
  | "<" => some (a.slt b)
  | ">" => some (b.slt a)
  | "<=" => some (a.sle b)
  | ">=" => some (b.sle a)
  | "==" => some (a == b)
  | "!=" => some (a != b)
  | _ => none

def realArithmetic (op : String) (x y : R) : Option R :=
  match op with
  | "+" => some (I.add x y)
  | "-" => some (I.sub x y)
  | "*" => some (I.mul x y)
  | "/" => some (I.div x y)
  | _ => none

def realComparison (op : String) (x y : R) : Option Bool :=
  match op with
  | "<" => some (I.lt x y)
  | ">" => some (I.gt x y)
  | "<=" => some (I.le x y)
  | ">=" => some (I.ge x y)
  | "==" => some (I.eq x y)
  | "!=" => some (I.ne x y)
  | _ => none

/-- A truth value as a word. -/
def ofBool (b : Bool) : Val R A :=
  .i1 (BitVec.ofBool b)

def arithmetic (op : String) : Val R A → Val R A → Option (Val R A)
  | .i1 a, .i1 b => (wordArithmetic op a b).map .i1
  | .i32 a, .i32 b => (wordArithmetic op a b).map .i32
  | .real x, .real y => (realArithmetic I op x y).map .real
  | _, _ => none

def comparison (op : String) : Val R A → Val R A → Option (Val R A)
  | .i1 a, .i1 b => (wordComparison op a b).map ofBool
  | .i32 a, .i32 b => (wordComparison op a b).map ofBool
  | .real x, .real y => (realComparison I op x y).map ofBool
  | _, _ => none

def binary (op : Token) (x y : Val R A) : Option (Val R A) :=
  match op.kind with
  | .arithmetic => arithmetic I op.text x y
  | .compare => comparison I op.text x y
  | _ => none

/-- A word or a float with its sign changed. -/
def negate : Val R A → Option (Val R A)
  | .i1 a => some (.i1 (-a))
  | .i32 a => some (.i32 (-a))
  | .real x => some (.real (I.neg x))
  | .address _ => none

/-- A word with all its bits changed. -/
def complement : Val R A → Option (Val R A)
  | .i1 a => some (.i1 (~~~a))
  | .i32 a => some (.i32 (~~~a))
  | _ => none

def unary (op : Token) (x : Val R A) : Option (Val R A) :=
  match op.text with
  | "-" => negate I x
  | "!" => complement x
  | _ => none

/-- Whether a value is other than zero. -/
def truth : Val R A → Option Bool
  | .i1 a => some (a != 0)
  | .i32 a => some (a != 0)
  | .real x => some (I.ne x (I.real 0))
  | .address _ => none

/-- The value that a literal writes. -/
def ofLiteral (t : Token) : Option (Val R A) :=
  match t.kind with
  | .intLiteral => (int32OfText? t.text).map fun n => .i32 (BitVec.ofInt 32 n)
  | .floatLiteral => (Binary64.ofText? t.text).map fun bits => .real (I.real bits)
  | .boolLiteral =>
    match t.text with
    | "true" => some (ofBool true)
    | "false" => some (ofBool false)
    | _ => none
  | .stringLiteral => some (.address (I.text t.text.toUTF8.data.toList))
  | _ => none

/-- The call that prints a value; a truth value is printed as a number. -/
def printing : Val R A → Event R A
  | .address a => ⟨"print_text", [.address a]⟩
  | .i32 n => ⟨"print_integer", [.i32 n]⟩
  | .i1 b => ⟨"print_integer", [.i32 (b.setWidth 32)]⟩
  | .real x => ⟨"print_real", [.real x]⟩

end Val

/-! ## Variables -/

/-- The variables declared up to a point of the text: those that are visible, the innermost
    first, and the number of the next one. -/
structure Layout where
  visible : List (String × Nat)
  next : Nat

namespace Layout

def empty : Layout := ⟨[], 0⟩

/-- The variable that a name stands for. -/
def lookup (L : Layout) (name : String) : Option Nat :=
  L.visible.lookup name

def declare (L : Layout) (name : String) : Layout :=
  ⟨(name, L.next) :: L.visible, L.next + 1⟩

/-- Behind a block in which the variables up to `inner` were declared. -/
def close (L : Layout) (inner : Layout) : Layout :=
  ⟨L.visible, inner.next⟩

end Layout

mutual

/-- The layout behind a statement. -/
def Stmt.layout : Stmt → Layout → Layout
  | .declare var _, L => L.declare var.text
  | .block body, L => L.close (Stmt.listLayout body L)
  | .ifElse _ yes no, L => Stmt.optionalLayout no (yes.layout L)
  | .whileLoop _ body, L => body.layout L
  | .forLoop none _ none body, L => body.layout L
  | .forLoop none _ (some _) body, L => L.close (body.layout L)
  | .forLoop (some initial) _ none body, L => L.close (body.layout (initial.layout L))
  | .forLoop (some initial) _ (some _) body, L => L.close (body.layout (initial.layout L))
  | .expression _, L => L
  | .print _, L => L
  | .function _ _ _, L => L
  | .ret _ _, L => L
  | .brk _, L => L

def Stmt.listLayout : List Stmt → Layout → Layout
  | [], L => L
  | s :: ss, L => Stmt.listLayout ss (s.layout L)

def Stmt.optionalLayout : Option Stmt → Layout → Layout
  | none, L => L
  | some s, L => s.layout L

end

/-! ## States -/

/-- The values of the variables that have one, and the calls made so far. -/
structure State (R A : Type) where
  store : Nat → Option (Val R A)
  trace : List (Event R A)

namespace State

/-- Gives a variable a value. -/
def assign (σ : State R A) (k : Nat) (v : Val R A) : State R A :=
  { σ with store := fun j => if j = k then some v else σ.store j }

/-- Makes a call, which gives a number. -/
def call (σ : State R A) (e : Event R A) : Option (Val R A × State R A) :=
  (I.call σ.trace e).map fun r => (.i32 r, { σ with trace := σ.trace ++ [e] })

end State

/-! ## Expressions -/

mutual

/-- The value of an expression and the state behind it. -/
def Expr.eval (L : Layout) : Expr → State R A → Option (Val R A × State R A)
  | .binary left op right, σ => do
    let (x, σ) ← left.eval L σ
    let (y, σ) ← right.eval L σ
    let z ← Val.binary I op x y
    return (z, σ)
  | .unary op operand, σ => do
    let (x, σ) ← operand.eval L σ
    let y ← Val.unary I op x
    return (y, σ)
  | .literal value, σ => do
    let x ← Val.ofLiteral I value
    return (x, σ)
  | .name var, σ => do
    let k ← L.lookup var.text
    let x ← σ.store k
    return (x, σ)
  | .assign target value, σ => do
    let (x, σ) ← value.eval L σ
    let k ← L.lookup target.text
    return (x, σ.assign k x)
  | .call callee arguments, σ => do
    let (xs, σ) ← Expr.evalAll L arguments σ
    σ.call I ⟨callee.text, xs⟩
  | .group inner, σ => inner.eval L σ

/-- The values of expressions, from left to right. -/
def Expr.evalAll (L : Layout) : List Expr → State R A → Option (List (Val R A) × State R A)
  | [], σ => some ([], σ)
  | e :: es, σ => do
    let (x, σ) ← e.eval L σ
    let (xs, σ) ← Expr.evalAll L es σ
    return (x :: xs, σ)

end

/-- Whether a condition holds. -/
def Expr.holds (L : Layout) (e : Expr) (σ : State R A) : Option (Bool × State R A) := do
  let (x, σ) ← e.eval I L σ
  let b ← x.truth I
  return (b, σ)

/-! ## Statements -/

/-- How execution of a statement ends. -/
inductive Completion (R A : Type) where
  /-- Control goes on behind the statement. -/
  | normal (σ : State R A)
  /-- The function returns a value, with these calls made. -/
  | returned (trace : List (Event R A)) (v : Val R A)

/-- What a statement can do. -/
abbrev Behaviour (R A : Type) := State R A → Completion R A → Prop

namespace Behaviour

/-- Nothing is done. -/
def skip : Behaviour R A :=
  fun σ o => o = .normal σ

/-- One behaviour and then the other, unless the first returns. -/
def andThen (first second : Behaviour R A) : Behaviour R A := fun σ o =>
  (∃ σ', first σ (.normal σ') ∧ second σ' o) ∨ ∃ t v, o = .returned t v ∧ first σ (.returned t v)

/-- A loop: the condition is tested before each round. -/
inductive loop (test : State R A → Option (Bool × State R A)) (body : Behaviour R A) :
    Behaviour R A
  | stop {σ σ' : State R A} (ends : test σ = some (false, σ')) : loop test body σ (.normal σ')
  | again {σ σ₁ σ₂ : State R A} {o : Completion R A} (holds : test σ = some (true, σ₁))
      (round : body σ₁ (.normal σ₂)) (rest : loop test body σ₂ o) : loop test body σ o
  | leave {σ σ₁ : State R A} {t : List (Event R A)} {v : Val R A}
      (holds : test σ = some (true, σ₁)) (round : body σ₁ (.returned t v)) :
      loop test body σ (.returned t v)

/-- An expression is evaluated and its value left. -/
def effect (L : Layout) (e : Expr) : Behaviour R A := fun σ o =>
  ∃ x σ', e.eval I L σ = some (x, σ') ∧ o = .normal σ'

end Behaviour

mutual

/-- Execution of a statement. -/
def Stmt.Exec : Stmt → Layout → Behaviour R A
  | .expression e, L => Behaviour.effect I L e
  | .print e, L => fun σ o => ∃ x σ₁ r σ₂,
      e.eval I L σ = some (x, σ₁) ∧ σ₁.call I x.printing = some (r, σ₂) ∧ o = .normal σ₂
  | .declare _ none, L => fun σ o => o = .normal (σ.assign L.next (.i32 0))
  | .declare _ (some e), L => fun σ o => ∃ x σ',
      e.eval I L σ = some (x, σ') ∧ o = .normal (σ'.assign L.next x)
  | .block body, L => Stmt.ExecAll body L
  | .ifElse test yes no, L => fun σ o => ∃ b σ', test.holds I L σ = some (b, σ') ∧
      if b then yes.Exec L σ' o else Stmt.ExecOptional no (yes.layout L) σ' o
  | .whileLoop test body, L => Behaviour.loop (test.holds I L) (body.Exec L)
  | .forLoop initial test step body, L =>
    let L' := Stmt.optionalLayout initial L
    let round := (body.Exec L').andThen
      (match step with
      | none => Behaviour.skip
      | some step => Behaviour.effect I (body.layout L') step)
    (Stmt.ExecOptional initial L).andThen
      (Behaviour.loop ((test.getD Stmt.always).holds I L') round)
  | .function _ _ _, _ => Behaviour.skip
  | .ret _ none, _ => fun _ _ => False
  | .ret _ (some e), L => fun σ o => ∃ x σ',
      e.eval I L σ = some (x, σ') ∧ o = .returned σ'.trace x
  | .brk _, _ => Behaviour.skip

/-- Execution of statements in order. -/
def Stmt.ExecAll : List Stmt → Layout → Behaviour R A
  | [], _ => Behaviour.skip
  | s :: ss, L => (s.Exec L).andThen (Stmt.ExecAll ss (s.layout L))

/-- Execution of a statement that may be absent. -/
def Stmt.ExecOptional : Option Stmt → Layout → Behaviour R A
  | none, _ => Behaviour.skip
  | some s, L => s.Exec L

end

/-! ## Functions -/

/-- A function of a program: its parameters and its body. -/
structure Definition where
  name : String
  params : List Token
  body : List Stmt

namespace Definition

/-- The layout at the start of the body. -/
def layout (d : Definition) : Layout :=
  d.params.foldl (fun L param => L.declare param.text) .empty

/-- The state at the start of a call. -/
def start (args : List (BitVec 32)) : State R A :=
  ⟨fun k => args[k]?.map .i32, []⟩

/-- A call with the arguments `args` ends: it makes the calls `t` and returns `r`.  Where control
    comes to the end of the body, that is 0. -/
def Runs (d : Definition) (args : List (BitVec 32)) (t : List (Event R A)) (r : Val R A) : Prop :=
  Stmt.ExecAll I d.body d.layout (start args) (.returned t r) ∨
    ∃ σ, Stmt.ExecAll I d.body d.layout (start args) (.normal σ) ∧ t = σ.trace ∧ r = .i32 0

end Definition

mutual

/-- The functions that a statement defines, wherever they stand in it. -/
def Stmt.functions : Stmt → List Definition
  | .block body => Stmt.listFunctions body
  | .ifElse _ yes no => yes.functions ++ Stmt.optionalFunctions no
  | .whileLoop _ body => body.functions
  | .forLoop initial _ _ body => Stmt.optionalFunctions initial ++ body.functions
  | .function name params body => ⟨name.text, params, body⟩ :: Stmt.listFunctions body
  | .expression _ => []
  | .print _ => []
  | .declare _ _ => []
  | .ret _ _ => []
  | .brk _ => []

def Stmt.listFunctions : List Stmt → List Definition
  | [] => []
  | s :: ss => s.functions ++ Stmt.listFunctions ss

def Stmt.optionalFunctions : Option Stmt → List Definition
  | none => []
  | some s => s.functions

end

/-- The functions of a program; the statements themselves are the body of `main`. -/
def programFunctions (statements : List Stmt) : List Definition :=
  ⟨"main", [], statements⟩ :: Stmt.listFunctions statements

end ImpCompiler
