import Mathlib.Logic.Relation
import ImpCompiler.Proofs.Ssa.Cursor

/-! # Histories of an emitter

An emitter is used by calling its actions in any order and with any arguments, from an empty module
on: the insertion point can be moved to places that do not exist and back to blocks that have ended,
several functions can be written by turns, and calls can fail.

All that this can do to a module is said once, by `Module.Step`: a function or a string constant is
added, or one function is changed in one of six ways.  Each action is a sequence of such steps, also
where it fails, and so is every history (`Module.Emitted.steps`). -/

namespace ImpCompiler.Ssa

/-- The type of the value that an instruction yields, read off the instruction and, for a call, off
    the function that it calls. -/
def Instr.yields? (m : Module) : Instr → Option Ty
  | .alloca _ _ => some .ptr
  | .load _ ty _ => some ty
  | .store _ _ => none
  | .binary _ _ lhs _ => some lhs.ty
  | .icmp _ _ _ _ => some .i1
  | .fcmp _ _ _ _ => some .i1
  | .fneg _ _ => some .f64
  | .zext _ _ ty => some ty
  | .call _ callee _ => m.functions[callee]?.map Func.returnType

theorem Instr.yields?_mono {m M : Module} (later : m.Extends M) {i : Instr} {ty : Ty}
    (yields : i.yields? m = some ty) : i.yields? M = some ty := by
  cases i with
  | call result callee args =>
    obtain ⟨g, found, returns⟩ := Option.map_eq_some_iff.mp yields
    obtain ⟨G, found', step⟩ := later.functions callee g found
    rw [yields?, found', Option.map_some, step.returnType, returns]
  | _ => exact yields

/-! ## Steps -/

/-- What can be done to one function of the module `m`. -/
inductive Func.Step (m : Module) (f : Func) : Func → Prop
  | addBlock (label : String) : Step m f (f.addBlock label)
  /-- The name of a slot is taken before the function is found to have no block for it. -/
  | reserve (name : String) (empty : f.blocks.size = 0) : Step m f (f.addLocal name .ptr)
  | slot (name : String) (ty : Ty) (body : 0 < f.blocks.size) :
      Step m f ((f.addLocal name .ptr).insertSlot (.alloca f.locals.size ty))
  | push {b : Nat} {i : Instr} (open_ : f.IsOpen b) (plain : i.isAlloca = false)
      (silent : i.result? = none) : Step m f (f.pushInstr b i)
  | pushResult {b : Nat} {i : Instr} {ty : Ty} (name : String) (open_ : f.IsOpen b)
      (plain : i.isAlloca = false) (defines : i.result? = some f.locals.size)
      (yields : i.yields? m = some ty) : Step m f ((f.addLocal name ty).pushInstr b i)
  | terminate {b : Nat} (open_ : f.IsOpen b) (t : Terminator) : Step m f (f.terminate b t)

/-- What can be done to a module. -/
inductive Module.Step (m : Module) : Module → Prop
  | addFunction (name : String) (params : List Param) (returnType : Ty) :
      Step m (m.addFunction (.declare name params returnType))
  | addGlobal (bytes : List UInt8) : Step m (m.addGlobal bytes)
  | change {id : Nat} {f F : Func} (found : m.functions[id]? = some f) (step : f.Step m F) :
      Step m { m with functions := m.functions.setIfInBounds id F }

abbrev Module.Steps : Module → Module → Prop :=
  Relation.ReflTransGen Module.Step

theorem Func.Step.extends {m : Module} {f F : Func} (step : f.Step m F) : f.Extends F := by
  cases step with
  | addBlock label => exact extends_addBlock f label
  | reserve name _ => exact extends_addLocal f name .ptr
  | slot name ty body =>
    have body' : 0 < (f.addLocal name .ptr).blocks.size := body
    exact (extends_addLocal f name .ptr).trans (extends_insertSlot body' rfl)
  | push open_ plain _ => exact extends_pushInstr open_ plain
  | @pushResult b i ty name open_ plain _ _ =>
    have open' : (f.addLocal name ty).IsOpen b := open_
    exact (extends_addLocal f name ty).trans (extends_pushInstr open' plain)
  | terminate open_ t => exact extends_terminate open_ t

theorem Module.Step.extends {m M : Module} (step : m.Step M) : m.Extends M := by
  cases step with
  | addFunction name params returnType => exact extends_addFunction m _
  | addGlobal bytes => exact extends_addGlobal m bytes
  | change found step => exact extends_setFunction found step.extends

/-! ## What an action leaves behind -/

/-- The emitter behind an action, whether it fails or not. -/
def Emit.after {α : Type} (action : Emit α) (e : Emitter) : Emitter :=
  match action e with
  | .ok _ e' => e'
  | .error _ e' => e'

theorem Emit.after_of_ok {α : Type} {action : Emit α} {e e' : Emitter} {a : α}
    (run : action e = .ok a e') : Emit.after action e = e' := by
  rw [after, run]

theorem Emit.after_of_error {α : Type} {action : Emit α} {e e' : Emitter} {error : EmitError}
    (run : action e = .error error e') : Emit.after action e = e' := by
  rw [after, run]

theorem Emit.after_bind_pure {α β : Type} (action : Emit α) (g : α → β) (e : Emitter) :
    Emit.after (action >>= fun a => pure (g a)) e = Emit.after action e := by
  simp only [after, bind, EStateM.bind]
  cases action e <;> rfl

/-- An action that changes nothing, whether it fails or not. -/
def Emit.Looks {α : Type} (action : Emit α) : Prop :=
  ∀ e, Emit.after action e = e

namespace Emit.Looks

theorem pure {α : Type} (a : α) : Emit.Looks (Pure.pure a) :=
  fun _ => rfl

theorem throw {α : Type} (error : EmitError) : Emit.Looks (throw error : Emit α) :=
  fun _ => rfl

theorem bind {α β : Type} {first : Emit α} {next : α → Emit β} (looks : Emit.Looks first)
    (rest : ∀ a, Emit.Looks (next a)) : Emit.Looks (first >>= next) := by
  intro e
  have same := looks e
  rw [Emit.after] at same
  cases run : first e with
  | ok a e' =>
    rw [run] at same
    rw [Emit.after, bind_eq_of_ok run, show e' = e from same]
    exact rest a e
  | error error e' =>
    rw [run] at same
    exact (Emit.after_of_error (bind_eq_of_error run)).trans same

theorem currentPoint : Emit.Looks Emitter.currentPoint := by
  intro e
  rw [Emit.after, Emitter.currentPoint]
  cases e.point <;> rfl

theorem function (id : Nat) : Emit.Looks (Emitter.function id) := by
  intro e
  rw [Emit.after, Emitter.function]
  cases e.module.functions[id]? <;> rfl

theorem currentFunction : Emit.Looks Emitter.currentFunction :=
  currentPoint.bind fun _ => pure _

theorem isTerminated : Emit.Looks Emitter.isTerminated :=
  currentPoint.bind fun point => (function point.function).bind fun _ => pure _

theorem param (index : Nat) : Emit.Looks (Emitter.param index) := by
  refine currentFunction.bind fun id => (function id).bind fun f => ?_
  cases f.params[index]? with
  | none => exact throw _
  | some p => exact pure _

end Emit.Looks

namespace Emitter

variable {e : Emitter} {id : Nat} {c : Cursor}

theorem steps_opened (here : e.At id c) : e.module.Steps (e.put id c.opened).module := by
  by_cases ended : (c.func.terminator? c.block).isSome = true
  · have opened : c.opened = ⟨c.func.addBlock "dead", c.func.blocks.size⟩ := if_pos ended
    rw [opened]
    exact .single (.change here.function (.addBlock "dead"))
  · have same : c.opened = c := if_neg ended
    rw [same, put_self here]

/-- Once there is an open block, what is written to it is one more step. -/
theorem steps_write (here : e.At id c) {F : Func}
    (step : c.opened.func.Step (e.put id c.opened).module F) :
    e.module.Steps (e.put id ⟨F, c.opened.block⟩).module := by
  have last := Module.Step.change here.opened.function step
  have both := (steps_opened here).tail last
  rwa [← put_put e id c.opened]

/-- The emitter with another function in a place that is in use; it stays where it is. -/
def replace (e : Emitter) (id : Nat) (F : Func) : Emitter :=
  { e with module := { e.module with functions := e.module.functions.setIfInBounds id F } }

theorem modifyFunction_eq_replace {f : Func} (found : e.module.functions[id]? = some f)
    (change : Func → Func) : modifyFunction id change e = .ok () (e.replace id (change f)) := by
  rw [modifyFunction, Module.modifyFunction_eq found, replace]

theorem function_replace {f : Func} (found : e.module.functions[id]? = some f) (F : Func) :
    (e.replace id F).module.functions[id]? = some F := by
  have bound := (Array.getElem?_eq_some_iff.mp found).1
  simp [replace, bound]

theorem replace_replace (e : Emitter) (id : Nat) (F G : Func) :
    (e.replace id F).replace id G = e.replace id G := by
  simp [replace]

/-- A slot needs a function with a first block, and not a block at the insertion point. -/
theorem alloca_eq_of_found {p : InsertPoint} (here : e.point = some p) {f : Func}
    (found : e.module.functions[p.function]? = some f) (ty : Ty) (name : String) :
    Emitter.alloca ty name e =
      if f.isDeclaration then .error .noInsertPoint (e.replace p.function (f.addLocal name .ptr))
      else .ok (.result f.locals.size .ptr) (e.replace p.function
        ((f.addLocal name .ptr).insertSlot (.alloca f.locals.size ty))) := by
  have current : currentFunction e = .ok p.function e := by
    simp [currentFunction, currentPoint, here, bind, EStateM.bind, pure, EStateM.pure]
  rw [Emitter.alloca, bind_eq_of_ok current, bind_eq_of_ok (function_eq_of_found found),
    bind_eq_of_ok (modifyFunction_eq_replace found _)]
  split
  · rfl
  · rw [bind_eq_of_ok (modifyFunction_eq_replace (function_replace found _) _), replace_replace]
    rfl

/-! ### What each action can do

An action that writes fails and changes nothing, or it changes one function. -/

theorem push_cases (e : Emitter) (i : Instr) :
    (∃ error, Emitter.push i e = .error error e) ∨
      ∃ id c, e.At id c ∧ Emitter.push i e = .ok () (e.put id (c.push i)) := by
  rcases at_or_openBlock_fails e with ⟨id, c, here⟩ | ⟨error, failed⟩
  · exact .inr ⟨id, c, here, push_eq here i⟩
  · exact .inl ⟨error, bind_eq_of_error failed⟩

theorem pushResult_cases (e : Emitter) (ty : Ty) (name : String) (make : Nat → Instr) :
    (∃ error, Emitter.pushResult ty name make e = .error error e) ∨
      ∃ id c, e.At id c ∧ Emitter.pushResult ty name make e =
        .ok (.result c.func.locals.size ty)
          (e.put id (c.pushResult ty name (make c.func.locals.size))) := by
  rcases at_or_openBlock_fails e with ⟨id, c, here⟩ | ⟨error, failed⟩
  · exact .inr ⟨id, c, here, pushResult_eq here ty name make⟩
  · exact .inl ⟨error, bind_eq_of_error failed⟩

theorem terminate_cases (e : Emitter) (t : Terminator) :
    (∃ error, Emitter.terminate t e = .error error e) ∨
      ∃ id c, e.At id c ∧ Emitter.terminate t e = .ok () (e.put id (c.terminate t)) := by
  rcases at_or_openBlock_fails e with ⟨id, c, here⟩ | ⟨error, failed⟩
  · exact .inr ⟨id, c, here, terminate_eq here t⟩
  · exact .inl ⟨error, bind_eq_of_error failed⟩

theorem appendBlock_cases (e : Emitter) (function : Nat) (label : String) :
    (∃ error, Emitter.appendBlock function label e = .error error e) ∨
      ∃ f, e.module.functions[function]? = some f ∧ Emitter.appendBlock function label e =
        .ok f.blocks.size (e.replace function (f.addBlock label)) := by
  cases found : e.module.functions[function]? with
  | none =>
    have failed : Emitter.function function e = .error (.unknownFunction function) e := by
      rw [Emitter.function, found]
    exact .inl ⟨_, bind_eq_of_error failed⟩
  | some f =>
    refine .inr ⟨f, rfl, ?_⟩
    rw [Emitter.appendBlock, bind_eq_of_ok (function_eq_of_found found),
      bind_eq_of_ok (modifyFunction_eq_replace found _)]
    rfl

/-- In a function without blocks, the name of the slot is taken before the action fails. -/
theorem alloca_cases (e : Emitter) (ty : Ty) (name : String) :
    (∃ error, Emitter.alloca ty name e = .error error e) ∨
      ∃ p f, e.point = some p ∧ e.module.functions[p.function]? = some f ∧
        (f.blocks.size = 0 ∧ Emitter.alloca ty name e =
            .error .noInsertPoint (e.replace p.function (f.addLocal name .ptr)) ∨
          0 < f.blocks.size ∧ Emitter.alloca ty name e =
            .ok (.result f.locals.size .ptr) (e.replace p.function
              ((f.addLocal name .ptr).insertSlot (.alloca f.locals.size ty)))) := by
  cases here : e.point with
  | none =>
    have failed : currentFunction e = .error .noInsertPoint e := by
      simp [currentFunction, currentPoint, here, bind, EStateM.bind]
    exact .inl ⟨_, bind_eq_of_error failed⟩
  | some p =>
    cases found : e.module.functions[p.function]? with
    | none =>
      refine .inl ⟨.unknownFunction p.function, ?_⟩
      simp [Emitter.alloca, currentFunction, currentPoint, here, Emitter.function, found, bind,
        EStateM.bind, pure, EStateM.pure]
    | some f =>
      have run := alloca_eq_of_found here found ty name
      refine .inr ⟨p, f, rfl, found, ?_⟩
      by_cases empty : f.blocks.size = 0
      · have declaration : f.isDeclaration = true := by simpa [Func.isDeclaration] using empty
        exact .inl ⟨empty, by rw [run, if_pos declaration]⟩
      · have body : ¬ f.isDeclaration = true := by simpa [Func.isDeclaration] using empty
        exact .inr ⟨Nat.pos_of_ne_zero empty, by rw [run, if_neg body]⟩

/-- A call of a function that is there writes an instruction, with a result if there is one. -/
theorem after_call {callee : Nat} {g : Func} (found : e.module.functions[callee]? = some g)
    (args : List Value) (name : String) :
    Emit.after (Emitter.call callee args name) e =
      if g.returnType = .void then Emit.after (Emitter.push (.call none callee args)) e
      else Emit.after (Emitter.pushResult g.returnType name fun result =>
        .call (some result) callee args) e := by
  rw [Emit.after, Emitter.call, bind_eq_of_ok (function_eq_of_found found)]
  by_cases void : g.returnType = .void
  · rw [if_pos void, if_pos void]
    exact Emit.after_bind_pure _ _ e
  · rw [if_neg void, if_neg void]
    exact Emit.after_bind_pure _ _ e

theorem after_call_of_none {callee : Nat} (missing : e.module.functions[callee]? = none)
    (args : List Value) (name : String) : Emit.after (Emitter.call callee args name) e = e := by
  have failed : Emitter.function callee e = .error (.unknownFunction callee) e := by
    rw [Emitter.function, missing]
  exact Emit.after_of_error (bind_eq_of_error failed)

end Emitter

/-! ## Actions are sequences of steps -/

/-- Wherever the action is run and however it ends, it takes steps. -/
def Emit.TakesSteps {α : Type} (action : Emit α) : Prop :=
  ∀ e : Emitter, e.module.Steps (Emit.after action e).module

namespace Emit.TakesSteps

theorem of_looks {α : Type} {action : Emit α} (looks : Emit.Looks action) :
    Emit.TakesSteps action := by
  intro e
  rw [looks e]

theorem addFunction (name : String) (params : List Param) (returnType : Ty) :
    Emit.TakesSteps (Emitter.addFunction name params returnType) :=
  fun _ => .single (.addFunction name params returnType)

theorem globalString (text : String) : Emit.TakesSteps (Emitter.globalString text) :=
  fun _ => .single (.addGlobal _)

theorem appendBlock (function : Nat) (label : String) :
    Emit.TakesSteps (Emitter.appendBlock function label) := by
  intro e
  rcases Emitter.appendBlock_cases e function label with ⟨error, run⟩ | ⟨f, found, run⟩
  · rw [Emit.after_of_error run]
  · rw [Emit.after_of_ok run]
    exact .single (.change found (.addBlock label))

theorem push {i : Instr} (plain : i.isAlloca = false) (silent : i.result? = none) :
    Emit.TakesSteps (Emitter.push i) := by
  intro e
  rcases Emitter.push_cases e i with ⟨error, run⟩ | ⟨id, c, here, run⟩
  · rw [Emit.after_of_error run]
  · rw [Emit.after_of_ok run]
    exact Emitter.steps_write here (.push (Cursor.isOpen_opened here.inside) plain silent)

/-- The new local has the type that the instruction yields where it is written. -/
theorem pushResult {ty : Ty} {name : String} {make : Nat → Instr} {e : Emitter}
    (plain : ∀ id, (make id).isAlloca = false) (defines : ∀ id, (make id).result? = some id)
    (yields : ∀ id, (make id).yields? e.module = some ty) :
    e.module.Steps (Emit.after (Emitter.pushResult ty name make) e).module := by
  rcases Emitter.pushResult_cases e ty name make with ⟨error, run⟩ | ⟨id, c, here, run⟩
  · rw [Emit.after_of_error run]
  · rw [Emit.after_of_ok run]
    have later : e.module.Extends (e.put id c.opened).module :=
      Module.extends_setFunction here.function (Cursor.extends_opened c)
    refine Emitter.steps_write here
      (.pushResult name (Cursor.isOpen_opened here.inside) (plain _) ?_ ?_)
    · rw [defines, Cursor.locals_opened]
    · exact Instr.yields?_mono later (yields _)

theorem terminate (t : Terminator) : Emit.TakesSteps (Emitter.terminate t) := by
  intro e
  rcases Emitter.terminate_cases e t with ⟨error, run⟩ | ⟨id, c, here, run⟩
  · rw [Emit.after_of_error run]
  · rw [Emit.after_of_ok run]
    exact Emitter.steps_write here (.terminate (Cursor.isOpen_opened here.inside) t)

theorem alloca (ty : Ty) (name : String) : Emit.TakesSteps (Emitter.alloca ty name) := by
  intro e
  rcases Emitter.alloca_cases e ty name with ⟨error, run⟩ | ⟨p, f, _, found, ⟨empty, run⟩ | ⟨body, run⟩⟩
  · rw [Emit.after_of_error run]
  · rw [Emit.after_of_error run]
    exact .single (.change found (.reserve name empty))
  · rw [Emit.after_of_ok run]
    exact .single (.change found (.slot name ty body))

theorem call (callee : Nat) (args : List Value) (name : String) :
    Emit.TakesSteps (Emitter.call callee args name) := by
  intro e
  cases found : e.module.functions[callee]? with
  | none => rw [Emitter.after_call_of_none found]
  | some g =>
    rw [Emitter.after_call found]
    split
    · exact push rfl rfl e
    · exact pushResult (fun _ => rfl) (fun _ => rfl) fun _ => by rw [Instr.yields?, found]; rfl

end Emit.TakesSteps

/-! ## Histories -/

/-- A call of an action, with its arguments. -/
inductive Request where
  | addFunction (name : String) (params : List Param) (returnType : Ty)
  | findFunction (name : String)
  | function (id : Nat)
  | appendBlock (function : Nat) (label : String)
  | setPoint (point : Option InsertPoint)
  | currentFunction
  | isTerminated
  | param (index : Nat)
  | globalString (text : String)
  | alloca (ty : Ty) (name : String)
  | load (ty : Ty) (ptr : Value) (name : String)
  | store (value ptr : Value)
  | binary (op : BinaryOp) (lhs rhs : Value) (name : String)
  | icmp (test : IntTest) (lhs rhs : Value) (name : String)
  | fcmp (test : FloatTest) (lhs rhs : Value) (name : String)
  | fneg (operand : Value) (name : String)
  | zext (operand : Value) (ty : Ty) (name : String)
  | call (callee : Nat) (args : List Value) (name : String)
  | ret (value : Option Value)
  | branch (target : Nat)
  | condBranch (condition : Value) (yes no : Nat)

/-- What a call gives back, if it succeeds. -/
def Request.Result : Request → Type
  | .addFunction .. | .appendBlock .. | .currentFunction => Nat
  | .findFunction _ => Option Nat
  | .function _ => Func
  | .isTerminated => Bool
  | .call .. => Option Value
  | .setPoint _ | .store .. | .ret _ | .branch _ | .condBranch .. => Unit
  | .param _ | .globalString _ | .alloca .. | .load .. | .binary .. | .icmp .. | .fcmp ..
  | .fneg .. | .zext .. => Value

/-- The action that is called. -/
def Request.action : (request : Request) → Emit request.Result
  | .addFunction name params returnType => Emitter.addFunction name params returnType
  | .findFunction name => Emitter.findFunction name
  | .function id => Emitter.function id
  | .appendBlock id label => Emitter.appendBlock id label
  | .setPoint point => Emitter.setPoint point
  | .currentFunction => Emitter.currentFunction
  | .isTerminated => Emitter.isTerminated
  | .param index => Emitter.param index
  | .globalString text => Emitter.globalString text
  | .alloca ty name => Emitter.alloca ty name
  | .load ty ptr name => Emitter.load ty ptr name
  | .store value ptr => Emitter.store value ptr
  | .binary op lhs rhs name => Emitter.binary op lhs rhs name
  | .icmp test lhs rhs name => Emitter.icmp test lhs rhs name
  | .fcmp test lhs rhs name => Emitter.fcmp test lhs rhs name
  | .fneg operand name => Emitter.fneg operand name
  | .zext operand ty name => Emitter.zext operand ty name
  | .call callee args name => Emitter.call callee args name
  | .ret value => Emitter.ret value
  | .branch target => Emitter.branch target
  | .condBranch condition yes no => Emitter.condBranch condition yes no

/-- The emitter behind a call, whether it fails or not. -/
def Emitter.answer (e : Emitter) (request : Request) : Emitter :=
  Emit.after request.action e

theorem Request.takesSteps (request : Request) : Emit.TakesSteps request.action := by
  cases request with
  | addFunction name params returnType => exact .addFunction name params returnType
  | findFunction name => exact fun _ => .refl
  | function id => exact .of_looks (.function id)
  | appendBlock id label => exact .appendBlock id label
  | setPoint point => exact fun _ => .refl
  | currentFunction => exact .of_looks .currentFunction
  | isTerminated => exact .of_looks .isTerminated
  | param index => exact .of_looks (.param index)
  | globalString text => exact .globalString text
  | alloca ty name => exact .alloca ty name
  | store value ptr => exact Emit.TakesSteps.push rfl rfl
  | load | binary | icmp | fcmp | fneg | zext =>
    simp only [Request.action]
    exact fun _ => Emit.TakesSteps.pushResult (fun _ => rfl) (fun _ => rfl) fun _ => rfl
  | call callee args name => exact .call callee args name
  | ret | branch | condBranch => exact Emit.TakesSteps.terminate _

/-- The emitter behind a list of calls. -/
def Emitter.answers (e : Emitter) (requests : List Request) : Emitter :=
  requests.foldl Emitter.answer e

theorem Emitter.steps_answers (requests : List Request) (e : Emitter) :
    e.module.Steps (e.answers requests).module := by
  induction requests generalizing e with
  | nil => exact .refl
  | cons request requests ih => exact (request.takesSteps e).trans (ih (e.answer request))

/-- A module that an emitter holds at some point of some history. -/
def Module.Emitted (m : Module) : Prop :=
  ∃ (name : String) (requests : List Request), m = ((Emitter.start name).answers requests).module

theorem Module.Emitted.steps {m : Module} (emitted : m.Emitted) :
    ∃ name, (Module.empty name).Steps m := by
  obtain ⟨name, requests, rfl⟩ := emitted
  exact ⟨name, Emitter.steps_answers requests (Emitter.start name)⟩

/-- What holds of declarations, and is kept by the steps of a function and by growth of the module around
    it, holds of every function at every point of every history. -/
theorem Module.Emitted.functions {P : Module → Func → Prop}
    (declared : ∀ m name params returnType, P m (.declare name params returnType))
    (kept : ∀ {m f F}, Func.Step m f F → P m f → P m F)
    (mono : ∀ {m M : Module} {f : Func}, m.Extends M → P m f → P M f) {m : Module}
    (emitted : m.Emitted) : ∀ (id : Nat) (f : Func), m.functions[id]? = some f → P m f := by
  obtain ⟨name, steps⟩ := emitted.steps
  clear emitted
  induction steps with
  | refl =>
    intro id f found
    simp [Module.empty] at found
  | tail _ step ih =>
    intro id f found
    have later := step.extends
    cases step with
    | addFunction name params returnType =>
      rw [Module.addFunction, Array.getElem?_push] at found
      split at found
      · cases found
        exact declared _ name params returnType
      · exact mono later (ih id f found)
    | addGlobal bytes => exact mono later (ih id f found)
    | change found' step =>
      rcases (Module.getElem?_setFunction found').mp found with ⟨_, rfl⟩ | ⟨_, old⟩
      · exact mono later (kept step (ih _ _ found'))
      · exact mono later (ih id f old)

end ImpCompiler.Ssa
