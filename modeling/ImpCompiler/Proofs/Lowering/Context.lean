import ImpCompiler.Proofs.Lowering.Construction
import ImpCompiler.Proofs.Ssa.Histories

/-! # What lowering leaves as it was

Scopes are opened and closed by hand, and so is the insertion point moved and put back, with failures
possible at any point in between.  Still, a statement ends where it has started, whether it fails or not:
in the same function, with the same scopes open, and with the same variables in all scopes but the
innermost one.  There, variables can only be added, and only those that the statement declares outside
of blocks and functions of its own (`stmt_keeps_context`).

`Lower.Declares allowed action` says this of an action that adds variables with `allowed` names.  It is
closed under doing one action behind another, and a scope around an action takes all its variables away; so
it holds of all that lowering is put together from (`Built.declares`). -/

namespace ImpCompiler

open Ssa

/-! ## The function that is written to -/

namespace Ssa

/-- The function of the insertion point. -/
def Emitter.current? (e : Emitter) : Option Nat :=
  e.point.map InsertPoint.function

theorem Emitter.current?_put {e : Emitter} {id : Nat} {c : Cursor} (here : e.At id c) (c' : Cursor) :
    (e.put id c').current? = e.current? := by
  rw [current?, current?, here.point]
  rfl

/-- The action stays in the function, whether it fails or not. -/
def Emit.Stays {α : Type} (action : Emit α) : Prop :=
  ∀ e, (Emit.after action e).current? = e.current?

namespace Emit.Stays

theorem of_looks {α : Type} {action : Emit α} (looks : Emit.Looks action) : Emit.Stays action := by
  intro e
  rw [looks e]

theorem findFunction (name : String) : Emit.Stays (Emitter.findFunction name) :=
  fun _ => rfl

theorem addFunction (name : String) (params : List Param) (returnType : Ty) :
    Emit.Stays (Emitter.addFunction name params returnType) :=
  fun _ => rfl

theorem globalString (text : String) : Emit.Stays (Emitter.globalString text) :=
  fun _ => rfl

theorem appendBlock (function : Nat) (label : String) :
    Emit.Stays (Emitter.appendBlock function label) := by
  intro e
  rcases Emitter.appendBlock_cases e function label with ⟨error, run⟩ | ⟨f, _, run⟩
  · rw [Emit.after_of_error run]
  · rw [Emit.after_of_ok run]
    rfl

theorem push (i : Instr) : Emit.Stays (Emitter.push i) := by
  intro e
  rcases Emitter.push_cases e i with ⟨error, run⟩ | ⟨id, c, here, run⟩
  · rw [Emit.after_of_error run]
  · rw [Emit.after_of_ok run, Emitter.current?_put here]

theorem pushResult (ty : Ty) (name : String) (make : Nat → Instr) :
    Emit.Stays (Emitter.pushResult ty name make) := by
  intro e
  rcases Emitter.pushResult_cases e ty name make with ⟨error, run⟩ | ⟨id, c, here, run⟩
  · rw [Emit.after_of_error run]
  · rw [Emit.after_of_ok run, Emitter.current?_put here]

theorem terminate (t : Terminator) : Emit.Stays (Emitter.terminate t) := by
  intro e
  rcases Emitter.terminate_cases e t with ⟨error, run⟩ | ⟨id, c, here, run⟩
  · rw [Emit.after_of_error run]
  · rw [Emit.after_of_ok run, Emitter.current?_put here]

theorem alloca (ty : Ty) (name : String) : Emit.Stays (Emitter.alloca ty name) := by
  intro e
  rcases Emitter.alloca_cases e ty name with ⟨error, run⟩ | ⟨p, f, _, _, ⟨_, run⟩ | ⟨_, run⟩⟩
  · rw [Emit.after_of_error run]
  · rw [Emit.after_of_error run]
    rfl
  · rw [Emit.after_of_ok run]
    rfl

theorem call (callee : Nat) (args : List Value) (name : String) :
    Emit.Stays (Emitter.call callee args name) := by
  intro e
  cases found : e.module.functions[callee]? with
  | none => rw [Emitter.after_call_of_none found]
  | some g =>
    rw [Emitter.after_call found]
    split
    · exact push _ e
    · exact pushResult _ _ _ e

end Emit.Stays

end Ssa

/-! ## What an action may change -/

/-- From `s` to `s'` variables with `allowed` names were declared in the innermost scope, and nothing else
    was done to the scopes; the function that is written to is the same. -/
structure LowerState.Keeps (allowed : String → Prop) (s s' : LowerState) : Prop where
  current : s'.emitter.current? = s.emitter.current?
  outer : s'.scopes.outer = s.scopes.outer
  kind : s'.scopes.innermost.kind = s.scopes.innermost.kind
  declared : ∃ new, s'.scopes.innermost.bindings = new ++ s.scopes.innermost.bindings ∧
    ∀ binding ∈ new, allowed binding.1

namespace LowerState.Keeps

variable {allowed : String → Prop} {s s' s'' : LowerState}

theorem of_scopes (current : s'.emitter.current? = s.emitter.current?) (scopes : s'.scopes = s.scopes) :
    Keeps allowed s s' where
  current := current
  outer := by rw [scopes]
  kind := by rw [scopes]
  declared := ⟨[], by rw [scopes]; rfl, by simp⟩

theorem trans (first : Keeps allowed s s') (second : Keeps allowed s' s'') : Keeps allowed s s'' where
  current := second.current.trans first.current
  outer := second.outer.trans first.outer
  kind := second.kind.trans first.kind
  declared := by
    obtain ⟨new, bindings, names⟩ := first.declared
    obtain ⟨newer, bindings', names'⟩ := second.declared
    refine ⟨newer ++ new, ?_, ?_⟩
    · rw [bindings', bindings, List.append_assoc]
    · exact List.forall_mem_append.mpr ⟨names', names⟩

/-- Where nothing may be declared, the scopes are what they were. -/
theorem scopes_eq (keeps : Keeps (fun _ => False) s s') : s'.scopes = s.scopes := by
  obtain ⟨new, bindings, names⟩ := keeps.declared
  have none : new = [] := List.eq_nil_iff_forall_not_mem.mpr names
  have outer := keeps.outer
  have kind := keeps.kind
  rw [none, List.nil_append] at bindings
  obtain ⟨emitter, ⟨kind₁, bindings₁⟩, outer₁⟩ := s
  obtain ⟨emitter', ⟨kind₂, bindings₂⟩, outer₂⟩ := s'
  cases outer
  cases kind
  cases bindings
  rfl

end LowerState.Keeps

namespace Lower

variable {α β : Type} {allowed : String → Prop}

/-- The state behind an action, whether it fails or not. -/
def after (action : Lower α) (s : LowerState) : LowerState :=
  match action s with
  | .ok _ s' => s'
  | .error _ s' => s'

theorem after_of_ok {action : Lower α} {s s' : LowerState} {a : α} (run : action s = .ok a s') :
    after action s = s' := by
  rw [after, run]

theorem after_of_error {action : Lower α} {s s' : LowerState} {e : LoweringError}
    (run : action s = .error e s') : after action s = s' := by
  rw [after, run]

theorem after_congr {action other : Lower α} {s t : LowerState} (same : action s = other t) :
    after action s = after other t := by
  rw [after, after, same]

theorem after_ensuring (body : Lower α) (restore : LowerState → LowerState) (s : LowerState) :
    after (ensuring body restore) s = restore (after body s) := by
  simp only [after, ensuring]
  cases body s <;> rfl

/-- Wherever the action is run and however it ends, it keeps all but variables with `allowed` names. -/
def Declares (allowed : String → Prop) (action : Lower α) : Prop :=
  ∀ s : LowerState, s.Keeps allowed (after action s)

namespace Declares

theorem pure (a : α) : Declares allowed (Pure.pure a : Lower α) :=
  fun _ => .of_scopes rfl rfl

theorem throw (e : LoweringError) : Declares allowed (MonadExcept.throw e : Lower α) :=
  fun _ => .of_scopes rfl rfl

theorem get : Declares allowed (MonadState.get : Lower LowerState) :=
  fun _ => .of_scopes rfl rfl

theorem bind {first : Lower α} {next : α → Lower β} (declares : Declares allowed first)
    (rest : ∀ a, Declares allowed (next a)) : Declares allowed (first >>= next) := by
  intro s
  have middle := declares s
  cases run : first s with
  | ok a s' =>
    rw [after_of_ok run] at middle
    rw [after, bind_eq_of_ok run]
    exact middle.trans (rest a s')
  | error e s' =>
    rw [after_of_error run] at middle
    rw [after_of_error (bind_eq_of_error run)]
    exact middle

/-- Where nothing may be declared, a run leaves the scopes as they are. -/
theorem scopes_of_ok {action : Lower α} (declares : Declares (fun _ => False) action) {s s' : LowerState}
    {a : α} (run : action s = .ok a s') : s'.scopes = s.scopes := by
  have keeps := declares s
  rw [after_of_ok run] at keeps
  exact keeps.scopes_eq

theorem emit {action : Emit α} (stays : Emit.Stays action) : Declares allowed (Lower.emit action) := by
  intro s
  have same : after (Lower.emit action) s = { s with emitter := Emit.after action s.emitter } := by
    simp only [after, Lower.emit, Emit.after]
    cases action s.emitter <;> rfl
  rw [same]
  exact .of_scopes (stays s.emitter) rfl

theorem define {name : String} (permitted : allowed name) (slot : Value) (ty : Ty) :
    Declares allowed (modifyScopes (·.define name slot ty)) := by
  intro s
  refine ⟨rfl, rfl, rfl, [(name, ⟨slot, ty⟩)], rfl, ?_⟩
  simpa using permitted

end Declares

/-! ## Blocks and functions -/

theorem appendBlock_declares (label : String) : Declares allowed (appendBlock label) :=
  .bind (.emit (.of_looks .currentFunction)) fun function => .emit (.appendBlock function label)

/-- Going to a block does not leave the function. -/
theorem moveTo_declares (block : Nat) : Declares allowed (moveTo block) := by
  intro s
  cases here : s.emitter.point with
  | none =>
    have failed : moveTo block s = .error (.emit .noInsertPoint) s := by
      simp [moveTo, Lower.emit, Emitter.currentFunction, Emitter.currentPoint, here, bind, EStateM.bind]
    rw [after_of_error failed]
    exact .of_scopes rfl rfl
  | some p =>
    have done : moveTo block s =
        .ok () { s with emitter := { s.emitter with point := some ⟨p.function, block⟩ } } := by
      simp [moveTo, Lower.emit, Emitter.currentFunction, Emitter.currentPoint, Emitter.moveTo,
        Emitter.setPoint, here, bind, EStateM.bind, Pure.pure, EStateM.pure]
    rw [after_of_ok done]
    exact .of_scopes (by simp [Emitter.current?, here]) rfl

theorem terminateIfOpen_declares (t : Terminator) :
    Declares allowed (terminateIfOpen (Emitter.terminate t)) := by
  refine .bind (.emit (.of_looks .isTerminated)) fun ended => ?_
  cases ended with
  | true => exact .pure ()
  | false => exact .emit (.terminate t)

/-- A block scope is closed again with all that was declared in it. -/
theorem withBlockScope_declares {inner : String → Prop} {body : Lower Unit}
    (declares : Declares inner body) : Declares allowed (withBlockScope body) := by
  intro s
  have kept := declares { s with scopes := s.scopes.push .block }
  have entered : withBlockScope body s = ensuring body (fun s' => { s' with scopes := s'.scopes.pop })
      { s with scopes := s.scopes.push .block } := rfl
  rw [after_congr entered, after_ensuring]
  exact .of_scopes kept.current (Scopes.pop_of_outer kept.outer)

/-- The insertion point is put back, wherever the body of the function has left it. -/
theorem withFunction_declares {inner : String → Prop} {body : Lower Unit}
    (declares : Declares inner body) (id : Nat) : Declares allowed (withFunction id body) := by
  intro s
  have stays := Emit.Stays.appendBlock id "entry" s.emitter
  have look_eq : (MonadState.get : Lower LowerState) s = .ok s s := rfl
  cases entered : Emitter.appendBlock id "entry" s.emitter with
  | error reason e =>
    -- no scope was opened yet, so there is none to be closed
    have failed : withFunction id body s = .error (.emit reason) { s with emitter := e } := by
      have append_eq : Lower.emit (Emitter.appendBlock id "entry") s =
          .error (.emit reason) { s with emitter := e } := by
        rw [Lower.emit, entered]
      rw [withFunction, bind_eq_of_ok look_eq, bind_eq_of_error append_eq]
    rw [Emit.after_of_error entered] at stays
    rw [after_of_error failed]
    exact .of_scopes stays rfl
  | ok entry e =>
    have kept := declares ⟨{ e with point := some ⟨id, entry⟩ }, s.scopes.push .function⟩
    have inside : withFunction id body s = ensuring body
        (fun s' => ⟨{ s'.emitter with point := s.emitter.point }, s'.scopes.pop⟩)
        ⟨{ e with point := some ⟨id, entry⟩ }, s.scopes.push .function⟩ := by
      rw [withFunction, bind_eq_of_ok look_eq, bind_eq_of_ok (emit_eq entered)]
      rfl
    rw [after_congr inside, after_ensuring]
    exact .of_scopes rfl (Scopes.pop_of_outer kept.outer)

theorem lookup_declares (name : Token) : Declares allowed (lookup name) := by
  refine .bind .get fun s => ?_
  split
  · exact .pure _
  · exact .throw _

theorem function_declares (name : Token) {params : List Token} {body : Lower Unit} {inner : String → Prop}
    (stored : Declares inner (storeParams 0 params)) (declares : Declares inner body) :
    Declares allowed (function name params body) := by
  refine .bind (.emit (.findFunction name.text)) fun found => ?_
  cases found with
  | some id => exact .throw _
  | none =>
    refine .bind (.emit (.addFunction _ _ _)) fun id => ?_
    exact withFunction_declares (stored.bind fun _ => declares.bind fun _ => terminateIfOpen_declares _) id

/-! ## The whole of lowering -/

variable {δ : Change} {blocks : List Nat} {names : String → Prop} {texts : List String}

theorem Emits.stays {x y : Emit α} (emits : Emits δ x y) : Emit.Stays x := by
  cases emits with
  | push i => exact .push i
  | pushResult ty name make => exact .pushResult ty name make
  | load ty slot name => exact .pushResult _ _ _
  | alloca ty name => exact .alloca ty name
  | terminate t => exact .terminate t
  | param index => exact .of_looks (.param index)
  | call callee args name => exact .call callee args name
  | findFunction name => exact .findFunction name
  | addFunction name params returnType => exact .addFunction name params returnType

theorem Built.declares {x y : Lower α} (built : Built δ blocks names texts x y) : Declares names x := by
  induction built with
  | pure a => exact .pure a
  | throw e => exact .throw e
  | bind _ _ first rest => exact first.bind rest
  | emit emits => exact .emit emits.stays
  | globalString text => exact .emit (.globalString text)
  | signature id _ rest => exact .bind (.emit (.of_looks (.function id))) fun f => rest f.signature
  | lookup _ => exact lookup_declares _
  | define _ allowed slot ty => exact .define allowed slot ty
  | appendBlock label _ rest => exact (appendBlock_declares label).bind rest
  | moveTo _ => exact moveTo_declares _
  | terminateIfOpen t => exact terminateIfOpen_declares t
  | withBlockScope _ body => exact withBlockScope_declares body
  | function name _ _ stored body => exact function_declares name stored body

/-- A statement declares its open names, or fewer. -/
theorem stmt_declares {st : Stmt} (permitted : ∀ x ∈ st.openNames, allowed x) :
    Declares allowed (stmt st) := by
  have built : Built Change.none [] allowed _ _ _ := stmt_built st (fun _ _ => trivial) permitted
  exact built.declares

theorem expr_declares (e : Expr) : Declares allowed (expr e) := by
  have built : Built Change.none [] allowed _ _ _ := expr_built e fun _ _ => trivial
  exact built.declares

end Lower

/-- A statement, whether it fails or not, ends in the function in which it has started, with the same
    scopes open and no change to any but the innermost one, which only gets variables that the statement
    declares outside of scopes of its own.  Blocks, functions and expressions change no scope at all. -/
theorem stmt_keeps_context (s : LowerState) :
    (∀ st : Stmt, s.Keeps (· ∈ st.openNames) (Lower.after (Lower.stmt st) s)) ∧
    (∀ body, (Lower.after (Lower.stmt (.block body)) s).scopes = s.scopes) ∧
    (∀ name params body, (Lower.after (Lower.stmt (.function name params body)) s).scopes = s.scopes) ∧
    ∀ e : Expr, (Lower.after (Lower.expr e) s).scopes = s.scopes ∧
      (Lower.after (Lower.expr e) s).emitter.current? = s.emitter.current? := by
  have nothing {st : Stmt} (none : st.openNames = []) :
      (Lower.after (Lower.stmt st) s).scopes = s.scopes := by
    have declares : Lower.Declares (fun _ => False) (Lower.stmt st) :=
      Lower.stmt_declares (none ▸ List.forall_mem_nil _)
    exact (declares s).scopes_eq
  refine ⟨fun st => Lower.stmt_declares (fun _ => id) s, fun _ => nothing rfl, fun _ _ _ => nothing rfl,
    fun e => ?_⟩
  have keeps : s.Keeps (fun _ => False) (Lower.after (Lower.expr e) s) := Lower.expr_declares e s
  exact ⟨keeps.scopes_eq, keeps.current⟩

end ImpCompiler
