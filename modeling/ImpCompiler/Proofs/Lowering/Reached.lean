import ImpCompiler.Proofs.Lowering.Runs
import ImpCompiler.Proofs.Lowering.WellFormed
import Mathlib.Logic.Relation

/-! # Where lowering comes to

Lowering a part of a program lowers parts of that part, each from the state that the ones before it
have left.  `Part p q` says that lowering at `p` comes to `q` next; the places that lowering a
program comes to at all are those that a chain of such steps leads to.  Each of them is `Ready`,
so what holds wherever lowering stands holds of every expression and statement that is lowered. -/

namespace ImpCompiler.Lower

open Ssa

inductive Node where
  | expr (e : Expr)
  | stmt (st : Stmt)
  | stmts (ss : List Stmt)

/-- A part of a program, and the state that it is lowered from. -/
structure Place where
  node : Node
  state : LowerState

/-- The state in which the first statement of a program is lowered. -/
def entry (moduleName : String) : LowerState :=
  ⟨(Emitter.start moduleName).enter (.declare "main" [] .i32), .start⟩

theorem ready_entry (moduleName : String) : ∃ id c, (entry moduleName).Ready id c := by
  have sound : (Emitter.start moduleName).module.Sound := sound_empty moduleName
  have absent : (Emitter.start moduleName).module.findFunction? "main" = none := by
    simp [Emitter.start, Module.empty, Module.findFunction?]
  exact ⟨_, _, Ready.enter (.start moduleName) .start sound [] absent Scopes.lookup_start⟩

/-- Lowering a call with `count` arguments comes from `s` to `s'` with those in `before`. -/
def ArgumentsBefore (callee : Token) (count : Nat) (before : List Expr) (s s' : LowerState) : Prop :=
  ∃ k g values, s.emitter.module.findFunction? callee.text = some k ∧
    s.emitter.module.functions[k]? = some g ∧ g.paramTypes.length = count ∧
    args callee.text 0 before (g.paramTypes.take before.length) s = .ok values s'

inductive Part : Place → Place → Prop where
  | left {l op r s} : Part ⟨.expr (.binary l op r), s⟩ ⟨.expr l, s⟩
  | right {l op r s v s'} (run : expr l s = .ok v s') :
      Part ⟨.expr (.binary l op r), s⟩ ⟨.expr r, s'⟩
  | operand {op e s} : Part ⟨.expr (.unary op e), s⟩ ⟨.expr e, s⟩
  | assigned {target e s} : Part ⟨.expr (.assign target e), s⟩ ⟨.expr e, s⟩
  | inner {e s} : Part ⟨.expr (.group e), s⟩ ⟨.expr e, s⟩
  | argument {callee before e after s s'}
      (run : ArgumentsBefore callee (before ++ e :: after).length before s s') :
      Part ⟨.expr (.call callee (before ++ e :: after)), s⟩ ⟨.expr e, s'⟩
  -- a call that is a statement is not lowered as an expression, but its arguments are
  | effectArgument {callee before e after s s'}
      (run : ArgumentsBefore callee (before ++ e :: after).length before s s') :
      Part ⟨.stmt (.expression (.call callee (before ++ e :: after))), s⟩ ⟨.expr e, s'⟩
  | effect {e s} (value : ∀ callee arguments, e ≠ .call callee arguments) :
      Part ⟨.stmt (.expression e), s⟩ ⟨.expr e, s⟩
  | printed {e s} : Part ⟨.stmt (.print e), s⟩ ⟨.expr e, s⟩
  | initial {var e s} : Part ⟨.stmt (.declare var (some e)), s⟩ ⟨.expr e, s⟩
  | returned {keyword e s} : Part ⟨.stmt (.ret keyword (some e)), s⟩ ⟨.expr e, s⟩
  | block {body s} :
      Part ⟨.stmt (.block body), s⟩ ⟨.stmts body, { s with scopes := s.scopes.push .block }⟩
  | ifTest {test yes no s} : Part ⟨.stmt (.ifElse test yes no), s⟩ ⟨.expr test, s⟩
  | ifYes {test yes no s v s₁ id c₁} (tested : condition test s = .ok v s₁)
      (here : s₁.emitter.At id c₁) :
      Part ⟨.stmt (.ifElse test yes no), s⟩ ⟨.stmt yes, s₁.put id (atThen c₁ v)⟩
  | ifNo {test yes no s v s₁ id c₁ s₂ c₂} (tested : condition test s = .ok v s₁)
      (here : s₁.emitter.At id c₁) (done : stmt yes (s₁.put id (atThen c₁ v)) = .ok () s₂)
      (there : s₂.emitter.At id c₂) :
      Part ⟨.stmt (.ifElse test yes (some no)), s⟩ ⟨.stmt no, s₂.put id (atElse c₁ c₂)⟩
  | whileTest {test body s id c} (here : s.emitter.At id c) :
      Part ⟨.stmt (.whileLoop test body), s⟩ ⟨.expr test, s.put id (atCondition c)⟩
  | whileBody {test body s id c v s₁ c₁} (here : s.emitter.At id c)
      (tested : condition test (s.put id (atCondition c)) = .ok v s₁)
      (there : s₁.emitter.At id c₁) :
      Part ⟨.stmt (.whileLoop test body), s⟩ ⟨.stmt body, s₁.put id (atBody c c₁ v)⟩
  | desugared {initial test step body s} :
      Part ⟨.stmt (.forLoop initial test step body), s⟩
        ⟨.stmt (Stmt.desugarFor initial test step body), s⟩
  | body {name params body s s'} (absent : s.emitter.module.findFunction? name.text = none)
      (stored : storeParams 0 params
        ⟨s.emitter.enter (declared name.text params), s.scopes.push .function⟩ = .ok () s') :
      Part ⟨.stmt (.function name params body), s⟩ ⟨.stmts body, s'⟩
  | head {st ss s} : Part ⟨.stmts (st :: ss), s⟩ ⟨.stmt st, s⟩
  | tail {st ss s s'} (run : stmt st s = .ok () s') : Part ⟨.stmts (st :: ss), s⟩ ⟨.stmts ss, s'⟩

/-- A counting loop is lowered as the block and the loop that it stands for. -/
theorem stmt_forLoop_eq (initial : Option Stmt) (test step : Option Expr) (body : Stmt) :
    stmt (.forLoop initial test step body) = stmt (Stmt.desugarFor initial test step body) := by
  rw [stmt_forLoop]
  cases step <;> cases initial <;>
    simp [roundOf, behindInitial, Stmt.desugarFor, stmt, stmts, optional]

theorem cursor_of_ready {s : LowerState} {id id' : Nat} {c c' : Cursor} (ready : s.Ready id c)
    (here : s.emitter.At id' c') : id' = id ∧ c' = c := by
  have points := Option.some.inj (ready.here.point.symm.trans here.point)
  obtain rfl : id = id' := congrArg InsertPoint.function points
  exact ⟨rfl, ready.here.unique here⟩

theorem ArgumentsBefore.ready {callee : Token} {count : Nat} {before : List Expr} {s s' : LowerState}
    {id : Nat} {c : Cursor} (run : ArgumentsBefore callee count before s s')
    (fewer : before.length ≤ count) (ready : s.Ready id c) : ∃ c', s'.Ready id c' := by
  obtain ⟨k, g, values, _, _, rfl, lowered⟩ := run
  have length : (g.paramTypes.take before.length).length = before.length := by
    rw [List.length_take, Nat.min_eq_left fewer]
  obtain ⟨c', step, _⟩ := (args_gives callee.text 0 before ready _ length).ok lowered
  exact ⟨c', step.ready⟩

/-- What lowering comes to, it comes to in a state from which it can go on. -/
theorem Part.ready {p q : Place} (part : Part p q) {id : Nat} {c : Cursor}
    (ready : p.state.Ready id c) : ∃ id' c', q.state.Ready id' c' := by
  have here : ∃ id' c', p.state.Ready id' c' := ⟨id, c, ready⟩
  cases part with
  | left | operand | assigned | inner | effect | printed | initial | returned | ifTest | desugared
  | head => exact here
  | right run =>
    obtain ⟨c', step, _⟩ := (expr_lowersTo _ _ id c ready).ok run
    exact ⟨id, c', step.ready⟩
  | argument run | effectArgument run =>
    obtain ⟨c', ready'⟩ := run.ready (by simp) ready
    exact ⟨id, c', ready'⟩
  | block => exact ⟨id, c, Ready.pushBlock ready⟩
  | ifYes tested there =>
    obtain ⟨c₁, step, usable, typed⟩ := (condition_lowersTo _ _ id c ready).ok tested
    obtain ⟨rfl, rfl⟩ := cursor_of_ready step.ready there
    exact ⟨_, _, (Grows.atThen step.ready usable typed).ready⟩
  | ifNo tested there done behind =>
    obtain ⟨c₁, step, usable, typed⟩ := (condition_lowersTo _ _ id c ready).ok tested
    obtain ⟨rfl, rfl⟩ := cursor_of_ready step.ready there
    have opened := Grows.atThen step.ready usable typed
    obtain ⟨c₂, first⟩ := (stmt_lowers _ _ _ _ opened.ready).ok done
    obtain ⟨_, rfl⟩ := cursor_of_ready first.ready behind
    exact ⟨_, _, (grows_atElse step.ready opened first).ready⟩
  | whileTest there =>
    obtain ⟨rfl, rfl⟩ := cursor_of_ready ready there
    exact ⟨_, _, (Grows.atCondition ready).ready⟩
  | whileBody there tested behind =>
    obtain ⟨rfl, rfl⟩ := cursor_of_ready ready there
    have opened := Grows.atCondition ready
    obtain ⟨c₁, step, usable, typed⟩ := (condition_lowersTo _ _ _ _ opened.ready).ok tested
    obtain ⟨_, rfl⟩ := cursor_of_ready step.ready behind
    exact ⟨_, _, (grows_atBody ready step usable typed).ready⟩
  | @body name params _ s _ absent stored =>
    have entered := Ready.enter s.emitter (s.scopes.push .function) ready.sound params absent
      s.scopes.lookup_push_function
    have numbers := numbersFrom_declared name.text params
    obtain ⟨c', step⟩ := (storeParams_yields 0 params entered numbers).ok stored
    exact ⟨_, c', step.ready⟩
  | tail run =>
    obtain ⟨c', step⟩ := (stmt_lowers _ _ id c ready).ok run
    exact ⟨id, c', step.ready⟩

theorem ready_of_parts {p q : Place} (parts : Relation.ReflTransGen Part p q) {id : Nat} {c : Cursor}
    (ready : p.state.Ready id c) : ∃ id' c', q.state.Ready id' c' := by
  induction parts with
  | refl => exact ⟨id, c, ready⟩
  | tail _ part ih =>
    obtain ⟨_, _, ready'⟩ := ih
    exact part.ready ready'

end ImpCompiler.Lower
