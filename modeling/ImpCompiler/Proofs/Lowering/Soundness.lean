import ImpCompiler.Proofs.Lowering.Steps

/-! # Lowering is sound

From every state that is `Ready`, lowering an expression or a statement does not fail in the
emitter, and what it writes is sound: the state that it ends in is `Ready` again.  The type of a
value can be read off the expression (`Expr.valueType`), and the returns of a statement that are
bad are those of its return statements (`Stmt.returns`) whose value is missing or has another
type.

One lemma for each form of expression and statement says what that form does, given that its
parts do what they should; two recursions over the trees put them together. -/

namespace ImpCompiler

open Ssa

/-- The type of the value of an expression, if it has one. -/
def Expr.valueType : Expr → Ty
  | .binary left op _ => if op.kind = .compare then .i1 else left.valueType
  | .unary _ operand => operand.valueType
  | .literal value =>
    match value.kind with
    | .intLiteral => .i32
    | .floatLiteral => .f64
    | .boolLiteral => .i1
    | _ => .ptr
  | .name _ => .i32
  | .assign _ value => value.valueType
  | .call _ _ => .i32
  | .group inner => inner.valueType

/-- A return statement is bad if it has no value, or one that is not a number. -/
def BadValue : Option Expr → Prop
  | none => True
  | some e => e.valueType ≠ .i32

mutual

/-- The values of the return statements in a statement, wherever they stand in it. -/
def Stmt.returns : Stmt → List (Option Expr)
  | .block body => Stmt.listReturns body
  | .ifElse _ yes no => yes.returns ++ Stmt.optionalReturns no
  | .whileLoop _ body => body.returns
  | .forLoop initial _ _ body => Stmt.optionalReturns initial ++ body.returns
  | .function _ _ body => Stmt.listReturns body
  | .ret _ value => [value]
  | .expression _ => []
  | .print _ => []
  | .declare _ _ => []
  | .brk _ => []

def Stmt.listReturns : List Stmt → List (Option Expr)
  | [] => []
  | s :: ss => s.returns ++ Stmt.listReturns ss

def Stmt.optionalReturns : Option Stmt → List (Option Expr)
  | none => []
  | some s => s.returns

end

namespace Lower

variable {id : Nat} {s s' : LowerState} {c c' : Cursor}

/-! ## Expressions -/

/-- The result of an expression whose value has the type `ty`. -/
def Gives (id : Nat) (s : LowerState) (c : Cursor) (ty : Ty) (v : Value) (s' : LowerState) : Prop :=
  ∃ c', ExprStep id s c s' c' ∧ s'.CanUse c' v ∧ v.ty = ty

/-- The action lowers an expression whose value has the type `ty`. -/
def LowersTo (ty : Ty) (action : Lower Value) : Prop :=
  ∀ s id c, s.Ready id c → Yields action s (Gives id s c ty)

theorem Gives.after {ty : Ty} {v : Value} {t : LowerState} (first : ExprStep id s c s' c')
    (ready : s.Ready id c) (rest : Gives id s' c' ty v t) : Gives id s c ty v t := by
  obtain ⟨last, second, usable, typed⟩ := rest
  exact ⟨last, first.trans second ready, usable, typed⟩

theorem yields_pushResult (make : Nat → Instr) (ready : s.Ready id c)
    (defines : ∀ k, (make k).result? = some k)
    (fits : (make c.func.locals.size).Sound s.emitter.module c.func (c.func.code c.opened.block))
    (reads : (make c.func.locals.size).ReadsVisible s.scopes) {ty : Ty} (nonvoid : ty ≠ .void)
    (name : String) :
    Yields (emit (Emitter.pushResult ty name make)) s (Gives id s c ty) := by
  apply Yields.of_eq (pushResult_eq ready.here ty name make)
  exact ⟨_, .pushResult ready (defines _) fits reads ty name,
    canUse_pushResult ready (defines _) fits.isAlloca_eq_false nonvoid name, rfl⟩

theorem literal_lowersTo (t : Token) : LowersTo (Expr.literal t).valueType (literal t) := by
  intro s id c ready
  have constant : ∀ {v : Value}, s.CanUse c v → Gives id s c v.ty v s := fun usable =>
    ⟨c, .refl ready, usable, rfl⟩
  have invalid : ∀ {Q : Value → LowerState → Prop},
      Yields (throw (.invalidLiteral t.text t.position)) s Q :=
    Yields.throw fun _ => LoweringError.noConfusion
  rw [literal, Expr.valueType]
  cases t.kind with
  | intLiteral =>
    dsimp only
    split
    · exact Yields.pure (constant (.constInt rfl))
    · exact invalid
  | floatLiteral =>
    dsimp only
    split
    · exact Yields.pure (constant .constFloat)
    · exact invalid
  | boolLiteral =>
    dsimp only
    split
    · exact Yields.pure (constant (.constInt rfl))
    · exact Yields.pure (constant (.constInt rfl))
    · exact invalid
  | stringLiteral =>
    have run : Emitter.globalString t.text s.emitter =
      .ok (.global s.emitter.module.globals.size)
        { s.emitter with module := s.emitter.module.addGlobal t.text.toUTF8.data.toList } := rfl
    exact Yields.of_eq (emit_eq run)
      ⟨c, .addGlobal ready _, .global (Array.getElem?_push_size), rfl⟩
  | _ => exact invalid

/-- The operation for an operator of arithmetic fits the type of its operands. -/
theorem arithmeticOp?_fits {op : String} {ty : Ty} {operation : BinaryOp} {name : String}
    (found : arithmeticOp? op ty = some (operation, name)) :
    (if operation.isFloat then ty.isFloat else ty.isInt) = true := by
  unfold arithmeticOp? at found
  split at found
  · rename_i int
    split at found <;> cases found <;> exact int
  · split at found
    · rename_i float
      split at found <;> cases found <;> exact float
    · cases found

theorem eq_f64_of_isFloat {ty : Ty} (float : ty.isFloat = true) : ty = .f64 := by
  cases ty with
  | f64 => rfl
  | _ => cases float

theorem binary_gives (ready : s.Ready id c) (op : Token) {left right : Value}
    (useLeft : s.CanUse c left) (useRight : s.CanUse c right) :
    Yields (binary op left right) s
      (Gives id s c (if op.kind = .compare then .i1 else left.ty)) := by
  have unsupported : ∀ {Q : Value → LowerState → Prop},
      Yields (throw (.unsupportedOperator op.text left.ty op.position)) s Q :=
    Yields.throw fun _ => LoweringError.noConfusion
  rw [binary]
  split
  · exact Yields.throw fun _ => LoweringError.noConfusion
  · rename_i same
    -- behind the check, the operands have one type, and the kind of operator decides
    have sameType : right.ty = left.ty := (Classical.not_not.mp same).symm
    cases op.kind with
    | arithmetic =>
      dsimp only
      split
      · rename_i operation name found
        exact yields_pushResult (.binary · operation left right) ready (fun _ => rfl)
          ⟨useLeft, useRight, sameType, arithmeticOp?_fits found⟩ trivial useLeft.ty_ne_void name
      · exact unsupported
    | compare =>
      dsimp only
      split
      · rename_i int
        split
        · rename_i test _
          exact yields_pushResult (.icmp · test left right) ready (fun _ => rfl)
            ⟨useLeft, useRight, sameType, int⟩ trivial Ty.noConfusion "cmptmp"
        · exact unsupported
      · split
        · rename_i float
          have real := eq_f64_of_isFloat float
          split
          · rename_i test _
            exact yields_pushResult (.fcmp · test left right) ready (fun _ => rfl)
              ⟨useLeft, useRight, real, sameType.trans real⟩ trivial Ty.noConfusion "cmptmp"
          · exact unsupported
        · exact unsupported
    | _ => exact unsupported

theorem unary_gives (ready : s.Ready id c) (op : Token) {operand : Value}
    (usable : s.CanUse c operand) : Yields (unary op operand) s (Gives id s c operand.ty) := by
  have unsupported : ∀ {Q : Value → LowerState → Prop},
      Yields (throw (.unsupportedOperator op.text operand.ty op.position)) s Q :=
    Yields.throw fun _ => LoweringError.noConfusion
  rw [unary]
  split
  · split
    · rename_i int
      exact yields_pushResult (.binary · .sub (.constInt operand.ty 0) operand) ready (fun _ => rfl)
        ⟨.constInt int, usable, rfl, int⟩ trivial usable.ty_ne_void "negtmp"
    · split
      · rename_i float
        have real := eq_f64_of_isFloat float
        rw [real]
        exact yields_pushResult (.fneg · operand) ready (fun _ => rfl) ⟨usable, real⟩ trivial
          Ty.noConfusion "negtmp"
      · exact unsupported
  · split
    · rename_i int
      exact yields_pushResult (.binary · .xor operand (.constInt operand.ty (-1))) ready
        (fun _ => rfl) ⟨usable, .constInt int, rfl, int⟩ trivial usable.ty_ne_void "nottmp"
    · exact unsupported
  · exact unsupported

theorem test_gives (ready : s.Ready id c) {value : Value} (usable : s.CanUse c value)
    (position : Position) : Yields (test value position) s (Gives id s c .i1) := by
  rw [test]
  split
  · rename_i ty
    exact Yields.pure ⟨c, .refl ready, usable, ty⟩
  · rename_i ty
    exact yields_pushResult (.icmp · .ne value (.i32 0)) ready (fun _ => rfl)
      ⟨usable, .constInt rfl, ty.symm, ty ▸ rfl⟩ trivial Ty.noConfusion "tobool"
  · rename_i ty
    exact yields_pushResult (.fcmp · .one value (.constFloat 0)) ready (fun _ => rfl)
      ⟨usable, .constFloat, ty, rfl⟩ trivial Ty.noConfusion "tobool"
  · exact Yields.throw fun _ => LoweringError.noConfusion

theorem yields_lookup (ready : s.Ready id c) (name : Token) :
    Yields (lookup name) s fun binding s' => s' = s ∧ s.scopes.lookup name.text = some binding ∧
      ∃ slot, binding.slot = .result slot .ptr ∧ c.func.HasSlot slot binding.ty := by
  have get_eq : (get : Lower LowerState) s = .ok s s := rfl
  apply Yields.step get_eq
  split
  · rename_i binding found
    exact Yields.pure ⟨rfl, found, ready.visible name.text binding found⟩
  · exact Yields.throw fun _ => LoweringError.noConfusion

theorem name_lowersTo (var : Token) : LowersTo .i32 (expr (.name var)) := by
  intro s id c ready
  rw [expr]
  apply (yields_lookup ready var).bind
  rintro ⟨_, ty⟩ _ ⟨rfl, visible, slot, rfl, made⟩
  exact yields_pushResult (.load · .i32 (.result slot .ptr)) ready (fun _ => rfl)
    ⟨slot, ty, rfl, made⟩ ⟨var.text, _, visible, rfl⟩ Ty.noConfusion var.text

theorem yields_store (ready : s.Ready id c) {value : Value} (usable : s.CanUse c value) {slot : Nat}
    (made : c.func.HasSlot slot value.ty) :
    Yields (emit (Emitter.store value (.result slot .ptr))) s fun _ s' =>
      ∃ c', ExprStep id s c s' c' := by
  apply Yields.of_eq (push_eq ready.here _)
  exact ⟨_, .push ready rfl ⟨usable, slot, rfl, made⟩ trivial⟩

theorem assign_gives (ready : s.Ready id c) (target : Token) {value : Value}
    (usable : s.CanUse c value) : Yields (assign target value) s (Gives id s c value.ty) := by
  apply (yields_lookup ready target).bind
  rintro ⟨_, ty⟩ _ ⟨rfl, _, slot, rfl, made⟩
  split
  · exact Yields.throw fun _ => LoweringError.noConfusion
  · rename_i same
    rw [← Classical.not_not.mp same] at made
    apply (yields_store ready usable made).bind
    rintro _ s' ⟨c', step⟩
    exact Yields.pure ⟨c', step, usable.step step ready, rfl⟩

/-- The results of lowering arguments for parameters of the types `types`. -/
def GivesAll (id : Nat) (s : LowerState) (c : Cursor) (types : List Ty) (vs : List Value)
    (s' : LowerState) : Prop :=
  ∃ c', ExprStep id s c s' c' ∧ (∀ v ∈ vs, s'.CanUse c' v) ∧ vs.map Value.ty = types

/-- The result of a call, which may have no value. -/
def GivesCall (id : Nat) (s : LowerState) (c : Cursor) (v? : Option Value) (s' : LowerState) :
    Prop :=
  ∃ c', ExprStep id s c s' c' ∧ ∀ v, v? = some v → s'.CanUse c' v ∧ v.ty = .i32

theorem emit_call_gives (ready : s.Ready id c) {callee : Nat} {g : Func}
    (found : s.emitter.module.functions[callee]? = some g) {args : List Value}
    (usable : ∀ v ∈ args, s.CanUse c v) (types : args.map Value.ty = g.paramTypes)
    (name : String) : Yields (emit (Emitter.call callee args name)) s (GivesCall id s c) := by
  have run := Emitter.call_eq ready.here found args name
  have fits : ∀ result : Option Nat, (result.isSome = true ↔ g.returnType ≠ .void) →
      (Instr.call result callee args).Sound s.emitter.module c.func (c.func.code c.opened.block) :=
    fun _ value => ⟨usable, g, found, types, value⟩
  by_cases void : g.returnType = .void
  · rw [if_pos void] at run
    apply Yields.of_eq (emit_eq run)
    exact ⟨_, .push ready rfl (fits none (by simp [void])) trivial, fun v some => nomatch some⟩
  · rw [if_neg void] at run
    -- what is not void returns a number, as all functions of a sound module do
    have number : g.returnType = .i32 :=
      (ready.sound.returns callee g found).resolve_right fun declared => void declared.1
    apply Yields.of_eq (emit_eq run)
    refine ⟨_, .pushResult ready rfl (fits (some _) (by simp [void])) trivial _ name, ?_⟩
    intro v some
    rw [← Option.some.inj some]
    exact ⟨canUse_pushResult ready rfl rfl void name, number⟩

theorem call_gives (ready : s.Ready id c) (callee : Token) {count : Nat}
    {arguments : List Ty → Lower (List Value)}
    (lowers : ∀ types, types.length = count → Yields (arguments types) s (GivesAll id s c types)) :
    Yields (call callee count arguments) s (GivesCall id s c) := by
  have find_eq : emit (Emitter.findFunction callee.text) s =
    .ok (s.emitter.module.findFunction? callee.text) s := rfl
  apply Yields.step find_eq
  split
  · exact Yields.throw fun _ => LoweringError.noConfusion
  · rename_i k found
    obtain ⟨g, function, _⟩ := Module.findFunction?_eq_some found
    apply Yields.step (emit_eq (Emitter.function_eq_of_found function))
    dsimp only
    split
    · exact Yields.throw fun _ => LoweringError.noConfusion
    · rename_i length
      apply (lowers g.paramTypes (Classical.not_not.mp length)).bind
      rintro values s' ⟨c', step, usable, types⟩
      -- the callee may be the current function, which has grown since it was found
      obtain ⟨G, function', later⟩ := step.module.functions k g function
      rw [← later.paramTypes] at types
      apply (emit_call_gives step.ready function' usable types "calltmp").mono
      rintro v? t ⟨c'', step', value⟩
      exact ⟨c'', step.trans step' ready, value⟩

mutual

theorem expr_lowersTo : ∀ e : Expr, LowersTo e.valueType (expr e)
  | .binary left op right => by
    intro s id c ready
    rw [expr, Expr.valueType]
    apply (expr_lowersTo left s id c ready).bind
    rintro l s₁ ⟨c₁, step₁, useLeft, typed⟩
    apply (expr_lowersTo right s₁ id c₁ step₁.ready).bind
    rintro r s₂ ⟨c₂, step₂, useRight, _⟩
    have both := step₁.trans step₂ ready
    rw [← typed]
    apply (binary_gives step₂.ready op (useLeft.step step₂ step₁.ready) useRight).mono
    exact fun v t gives => gives.after both ready
  | .unary op operand => by
    intro s id c ready
    rw [expr, Expr.valueType]
    apply (expr_lowersTo operand s id c ready).bind
    rintro v s₁ ⟨c₁, step, usable, typed⟩
    rw [← typed]
    exact (unary_gives step.ready op usable).mono fun v t gives => gives.after step ready
  | .literal value => by
    rw [expr]
    exact literal_lowersTo value
  | .name var => name_lowersTo var
  | .assign target value => by
    intro s id c ready
    rw [expr, Expr.valueType]
    apply (expr_lowersTo value s id c ready).bind
    rintro v s₁ ⟨c₁, step, usable, typed⟩
    rw [← typed]
    exact (assign_gives step.ready target usable).mono fun v t gives => gives.after step ready
  | .call callee arguments => by
    intro s id c ready
    rw [expr, Expr.valueType]
    have lowers := args_gives callee.text 0 arguments ready
    apply (call_gives ready callee lowers).bind
    rintro v? s₁ ⟨c₁, step, value⟩
    cases v? with
    | none => exact Yields.throw fun _ => LoweringError.noConfusion
    | some v => exact Yields.pure ⟨c₁, step, value v rfl⟩
  | .group inner => by
    rw [expr, Expr.valueType]
    exact expr_lowersTo inner

theorem args_gives (callee : String) (index : Nat) : ∀ (es : List Expr) {s : LowerState} {id : Nat}
    {c : Cursor}, s.Ready id c → ∀ types, types.length = es.length →
      Yields (args callee index es types) s (GivesAll id s c types)
  | [], s, id, c, ready, types, length => by
    rw [args, List.length_eq_zero_iff.mp length]
    · exact Yields.pure ⟨c, .refl ready, by simp, rfl⟩
    · rintro _ _ _ _ ⟨⟩
  | e :: es, s, id, c, ready, ty :: types, length => by
    rw [args]
    apply (expr_lowersTo e s id c ready).bind
    rintro v s₁ ⟨c₁, step₁, usable, _⟩
    split
    · exact Yields.throw fun _ => LoweringError.noConfusion
    · rename_i same
      apply (args_gives callee (index + 1) es step₁.ready types (Nat.succ.inj length)).bind
      rintro vs s₂ ⟨c₂, step₂, usables, typed⟩
      refine Yields.pure ⟨c₂, step₁.trans step₂ ready, ?_, ?_⟩
      -- the first value is used behind the others, so it has to stay usable
      · intro w member
        rcases List.mem_cons.mp member with rfl | rest
        · exact usable.step step₂ step₁.ready
        · exact usables w rest
      · rw [List.map_cons, typed, Classical.not_not.mp same]

end

/-! ## Simple statements -/

/-- The action lowers a statement; `bad` tells whether that has a bad return. -/
def Lowers (bad : Prop) (action : Lower Unit) : Prop :=
  ∀ s id c, s.Ready id c → Yields action s fun _ s' => ∃ c', StmtStep bad id s c s' c'

/-- The action does no more than evaluate expressions. -/
def Evaluates (action : Lower Unit) : Prop :=
  ∀ s id c, s.Ready id c → Yields action s fun _ s' => ∃ c', ExprStep id s c s' c'

theorem Evaluates.lowers {action : Lower Unit} (evaluates : Evaluates action) : Lowers False action :=
  fun s id c ready => (evaluates s id c ready).mono fun _ _ ⟨c', step⟩ => ⟨c', step.toStmtStep⟩

theorem effect_evaluates (e : Expr) : Evaluates (effect e) := by
  have discard : ∀ e, Evaluates (do let _ ← expr e) := by
    intro e s id c ready
    apply (expr_lowersTo e s id c ready).bind
    intro v s' gives
    obtain ⟨c', step, _⟩ := gives
    exact Yields.pure ⟨c', step⟩
  cases e with
  | call callee arguments =>
    intro s id c ready
    apply (call_gives ready callee (args_gives callee.text 0 arguments ready)).bind
    intro v? s' gives
    obtain ⟨c', step, _⟩ := gives
    exact Yields.pure ⟨c', step⟩
  | _ => exact discard _

theorem condition_lowersTo (e : Expr) : LowersTo .i1 (condition e) := by
  intro s id c ready
  apply (expr_lowersTo e s id c ready).bind
  rintro v s' ⟨c', step, usable, _⟩
  exact (test_gives step.ready usable e.position).mono fun v t gives => gives.after step ready

theorem printFunction_yields (ready : s.Ready id c) (routine : PrintRoutine) (position : Position) :
    Yields (printFunction routine position) s fun k s' => ExprStep id s c s' c ∧
      ∃ g, s'.emitter.module.functions[k]? = some g ∧ g.name = routine.name ∧
        g.paramTypes = [routine.param] := by
  have find_eq : emit (Emitter.findFunction routine.name) s =
    .ok (s.emitter.module.findFunction? routine.name) s := rfl
  apply Yields.step find_eq
  split
  · rename_i absent
    -- the first use of a routine declares it
    have run : emit (Emitter.addFunction routine.name [⟨"", routine.param⟩] .void) s =
      .ok s.emitter.module.functions.size { s with emitter := { s.emitter with
        module := s.emitter.module.addFunction
          (.declare routine.name [⟨"", routine.param⟩] .void) } } := rfl
    apply Yields.of_eq run
    refine ⟨.declare ready _ (.inr rfl) absent, _, Array.getElem?_push_size, rfl, ?_⟩
    rw [Func.paramTypes_declare]
    rfl
  · rename_i k found
    obtain ⟨g, function, named⟩ := Module.findFunction?_eq_some found
    apply Yields.step (emit_eq (Emitter.function_eq_of_found function))
    split
    · rename_i fits
      exact Yields.pure ⟨.refl ready, g, function, named, fits.2.2⟩
    · exact Yields.throw fun _ => LoweringError.noConfusion

theorem printWith_yields (ready : s.Ready id c) (routine : PrintRoutine) {argument : Value}
    (usable : s.CanUse c argument) (typed : argument.ty = routine.param) (position : Position) :
    Yields (printWith routine argument position) s fun _ s' => ∃ c', ExprStep id s c s' c' := by
  apply (printFunction_yields ready routine position).bind
  rintro k s₁ ⟨step₁, g, function, _, types⟩
  have usables : ∀ v ∈ [argument], s₁.CanUse c v := by
    intro v member
    rw [List.mem_singleton.mp member]
    exact usable.step step₁ ready
  have typed' : [argument].map Value.ty = g.paramTypes := by
    rw [types, List.map_singleton, typed]
  apply (emit_call_gives step₁.ready function usables typed' "").bind
  rintro v? s₂ ⟨c₂, step₂, _⟩
  exact Yields.pure ⟨c₂, step₁.trans step₂ ready⟩

theorem print_yields (ready : s.Ready id c) {value : Value} (usable : s.CanUse c value)
    (position : Position) :
    Yields (print value position) s fun _ s' => ∃ c', ExprStep id s c s' c' := by
  rw [print]
  split
  · rename_i typed
    exact printWith_yields ready .text usable typed position
  · rename_i typed
    exact printWith_yields ready .integer usable typed position
  · rename_i typed
    have widens : Yields (emit (Emitter.zext value .i32 "widened")) s (Gives id s c .i32) :=
      yields_pushResult (.zext · value .i32) ready (fun _ => rfl) ⟨usable, by rw [typed]; rfl, rfl⟩
        trivial Ty.noConfusion "widened"
    apply widens.bind
    rintro v s₁ ⟨c₁, step₁, usable₁, typed₁⟩
    apply (printWith_yields step₁.ready .integer usable₁ typed₁ position).mono
    rintro _ s₂ ⟨c₂, step₂⟩
    exact ⟨c₂, step₁.trans step₂ ready⟩
  · rename_i typed
    exact printWith_yields ready .real usable typed position
  · exact Yields.throw fun _ => LoweringError.noConfusion

theorem print_evaluates (e : Expr) : Evaluates (stmt (.print e)) := by
  intro s id c ready
  rw [stmt]
  apply (expr_lowersTo e s id c ready).bind
  intro v s₁ gives
  obtain ⟨c₁, step₁, usable, _⟩ := gives
  apply (print_yields step₁.ready usable e.position).mono
  intro _ s₂ step
  obtain ⟨c₂, step₂⟩ := step
  exact ⟨c₂, step₁.trans step₂ ready⟩

/-- A variable with a slot of the current function becomes visible. -/
theorem StmtStep.define (ready : s.Ready id c) {slot : Nat} {ty : Ty}
    (made : c.func.HasSlot slot ty) (name : String) :
    StmtStep False id s c { s with scopes := s.scopes.define name (.result slot .ptr) ty } c where
  ready := { ready with visible := ready.visible.define made name }
  module := .refl _
  others _ _ _ := rfl
  finished := (Grows.refl ready).finished
  returns := (Grows.refl ready).returns
  outer := rfl
  advances := .refl c

/-- A variable is made, takes its first value, and becomes visible. -/
theorem declare_yields (ready : s.Ready id c) (var : Token) {value : Value}
    (usable : s.CanUse c value) :
    Yields (declare var value) s fun _ s' => ∃ c', StmtStep False id s c s' c' := by
  have step₁ := StmtStep.alloca ready usable.ty_ne_void var.text
  have made := hasSlot_alloca ready.here.inside value.ty var.text
  apply Yields.step (alloca_eq ready.here value.ty var.text)
  apply (yields_store step₁.ready (canUse_alloca ready usable usable.ty_ne_void var.text) made).bind
  rintro _ s₂ ⟨c₂, step₂⟩
  -- only behind the store is the variable visible
  have step₃ := StmtStep.define step₂.ready (made.mono (step₂.func step₁.ready)) var.text
  have all := (step₁.trans step₂.toStmtStep ready).trans step₃ ready
  exact Yields.of_eq rfl ⟨c₂, all.congr (by simp)⟩

theorem ret_lowers (keyword : Token) (value : Option Expr) :
    Lowers (BadValue value) (stmt (.ret keyword value)) := by
  intro s id c ready
  cases value with
  | none =>
    rw [stmt]
    apply Yields.of_eq (terminate_eq ready.here (.ret none))
    exact ⟨_, .terminate ready (.ret none) trivial⟩
  | some e =>
    rw [stmt, BadValue]
    apply (expr_lowersTo e s id c ready).bind
    rintro v s₁ ⟨c₁, step₁, usable, typed⟩
    apply Yields.of_eq (terminate_eq step₁.ready.here (.ret (some v)))
    have step₂ := StmtStep.terminate step₁.ready (.ret (some v)) usable
    rw [← typed]
    exact ⟨_, (step₁.toStmtStep.trans step₂ ready).congr (iff_of_eq (false_or _))⟩

theorem seq_lowers {bad bad' : Prop} {first second : Lower Unit} (lowers : Lowers bad first)
    (lowers' : Lowers bad' second) : Lowers (bad ∨ bad') (do first; second) := by
  intro s id c ready
  apply (lowers s id c ready).bind
  rintro _ s₁ ⟨c₁, step₁⟩
  apply (lowers' s₁ id c₁ step₁.ready).mono
  rintro _ s₂ ⟨c₂, step₂⟩
  exact ⟨c₂, step₁.trans step₂ ready⟩

/-! ## Compound statements -/

theorem withBlockScope_lowers {bad : Prop} {body : Lower Unit} (lowers : Lowers bad body) :
    Lowers bad (withBlockScope body) := by
  intro s id c ready
  have inner : LowerState.Ready { s with scopes := s.scopes.push .block } id c :=
    { ready with visible := fun name binding found => ready.visible name binding (by simpa using found) }
  have push_eq : modifyScopes (·.push .block) s =
    .ok () { s with scopes := s.scopes.push .block } := rfl
  apply Yields.step push_eq
  apply Yields.ensuring
  apply (lowers _ id c inner).mono
  rintro _ s' ⟨c', step⟩
  -- what the body declares is in the scope that is dropped
  have scopes : s'.scopes.pop = s.scopes := Scopes.pop_of_outer step.outer
  refine ⟨c', ?_⟩
  exact
    { ready :=
        { here := step.ready.here
          sound := step.ready.sound
          number := step.ready.number
          visible := scopes ▸ ready.visible.mono (step.func inner) }
      module := step.module
      others := step.others
      finished := step.finished
      returns := step.returns
      outer := congrArg Scopes.outer scopes
      advances := step.advances }

theorem target_branches (ready : s.Ready id c) {b : Nat} (new : c.func.blocks.size ≤ b)
    (bound : b < c.func.blocks.size + 3) : (c.addBlocks "then" "else" "ifcont").func.Target b :=
  Cursor.target_addBlocks ready.here.inside ⟨'t', rfl, by decide⟩ ⟨'e', rfl, by decide⟩
    ⟨'i', rfl, by decide⟩ new bound

/-- Two branches are opened behind a condition. -/
theorem Grows.atThen (ready : s.Ready id c) {v : Value} (usable : s.CanUse c v)
    (typed : v.ty = .i1) : Grows False id s c (s.put id (atThen c v)) (atThen c v) := by
  have blocks := Grows.addBlocks ready "then" "else" "ifcont"
  have toYes := target_branches ready (Nat.le_refl _) (by omega)
  have toNo := target_branches ready (Nat.le_succ _) (by omega)
  have forks := Grows.fork blocks.ready (canUse_addBlocks ready usable "then" "else" "ifcont") typed
    toYes toNo toYes.lt_size
  rw [LowerState.put_put] at forks
  exact (blocks.trans forks ready).congr (or_self_iff)

theorem target_atThen (ready : s.Ready id c) (v : Value) {b : Nat} (new : c.func.blocks.size ≤ b)
    (bound : b < c.func.blocks.size + 3) : (atThen c v).func.Target b := by
  have inside := (Grows.addBlocks ready "then" "else" "ifcont").ready.here.inside
  exact (target_branches ready new bound).mono (Cursor.extends_terminate inside _)

theorem ifElse_lowers {bad bad' : Prop} {condition : Lower Value} {yes no : Lower Unit}
    (tests : LowersTo .i1 condition) (lowersYes : Lowers bad yes) (lowersNo : Lowers bad' no) :
    Lowers (bad ∨ bad') (ifElse condition yes no) := by
  intro s id c ready
  cases run : condition s with
  | error e t =>
    have failed : ifElse condition yes no s = .error e t := by
      simp only [ifElse, bind, EStateM.bind, run]
    rw [Yields, failed]
    exact (tests s id c ready).error run
  | ok v s₁ =>
    obtain ⟨c₁, step₁, usable, typed⟩ := (tests s id c ready).ok run
    have ready₁ := step₁.ready
    have branches := Grows.atThen ready₁ usable typed
    rw [Yields, ifElse_eq yes no run ready₁.here]
    -- each of the two blocks is written and ends with a branch to the third
    apply (lowersYes _ id _ branches.ready).bind
    rintro _ s₂ ⟨c₂, step₂⟩
    have toNo := (target_atThen ready₁ v (Nat.le_succ _) (by omega)).mono (step₂.func branches.ready)
    have toJoin := (target_atThen ready₁ v (Nat.le_add_right _ 2) (by omega)).mono
      (step₂.func branches.ready)
    have step₃ := Grows.jump step₂.ready toJoin toNo.lt_size
    apply Yields.step (jump_eq step₂.ready.here _ _)
    apply (lowersNo _ id _ step₃.ready).bind
    rintro _ s₄ ⟨c₄, step₄⟩
    have toJoin' := (toJoin.mono (step₃.func step₂.ready)).mono (step₄.func step₃.ready)
    have step₅ := Grows.jump step₄.ready toJoin' toJoin'.lt_size
    apply Yields.of_eq (jump_eq step₄.ready.here _ _)
    have first := (step₁.toGrows.trans branches ready).trans step₂.toGrows ready
    have all := ((first.trans step₃ ready).trans step₄.toGrows ready).trans step₅ ready
    have size := ((step₃.func step₂.ready).trans (step₄.func step₃.ready)).size
    have blocks := advances_ifElse ready₁.here.inside step₂.ready.here.inside
      step₄.ready.here.inside (step₂.func branches.ready).size size step₂.advances step₄.advances
    exact ⟨_, all.congr (by simp), step₁.advances.trans blocks (step₁.func ready).size⟩

theorem target_loop (ready : s.Ready id c) {b : Nat} (new : c.func.blocks.size ≤ b)
    (bound : b < c.func.blocks.size + 3) :
    (c.addBlocks "whilecond" "whilebody" "whileafter").func.Target b :=
  Cursor.target_addBlocks ready.here.inside ⟨'w', rfl, by decide⟩ ⟨'w', rfl, by decide⟩
    ⟨'w', rfl, by decide⟩ new bound

/-- A loop is opened. -/
theorem Grows.atCondition (ready : s.Ready id c) :
    Grows False id s c (s.put id (atCondition c)) (atCondition c) := by
  have blocks := Grows.addBlocks ready "whilecond" "whilebody" "whileafter"
  have toCondition := target_loop ready (Nat.le_refl _) (by omega)
  have jumps := Grows.jump blocks.ready toCondition toCondition.lt_size
  rw [LowerState.put_put] at jumps
  exact (blocks.trans jumps ready).congr (or_self_iff)

theorem target_atCondition (ready : s.Ready id c) {b : Nat} (new : c.func.blocks.size ≤ b)
    (bound : b < c.func.blocks.size + 3) : (atCondition c).func.Target b := by
  have target := target_loop ready new bound
  have blocks := Grows.addBlocks ready "whilecond" "whilebody" "whileafter"
  have jumps := Grows.jump blocks.ready (target_loop ready (Nat.le_refl _) (by omega)) target.lt_size
  exact target.mono (jumps.func blocks.ready)

theorem whileLoop_lowers {bad : Prop} {condition : Lower Value} {body : Lower Unit}
    (tests : LowersTo .i1 condition) (lowers : Lowers bad body) :
    Lowers bad (whileLoop condition body) := by
  intro s id c ready
  have step₁ := Grows.atCondition ready
  rw [Yields, whileLoop_eq condition body ready.here]
  apply (tests _ id _ step₁.ready).bind
  rintro v s₂ ⟨c₂, step₂, usable, typed⟩
  -- all three blocks may be branched to, also behind the condition
  have target : ∀ {b}, c.func.blocks.size ≤ b → b < c.func.blocks.size + 3 → c₂.func.Target b :=
    fun new bound => (target_atCondition ready new bound).mono (step₂.func step₁.ready)
  have toBody := target (Nat.le_succ _) (by omega)
  have toAfter := target (Nat.le_add_right _ 2) (by omega)
  have step₃ := Grows.fork step₂.ready usable typed toBody toAfter toBody.lt_size
  apply Yields.step (fork_eq step₂.ready.here v _ _ _)
  apply (lowers _ id _ step₃.ready).bind
  rintro _ s₄ ⟨c₄, step₄⟩
  have later := (step₃.func step₂.ready).trans (step₄.func step₃.ready)
  have step₅ := Grows.jump step₄.ready ((target (Nat.le_refl _) (by omega)).mono later)
    (toAfter.mono later).lt_size
  apply Yields.of_eq (jump_eq step₄.ready.here _ _)
  have first := (step₁.trans step₂.toGrows ready).trans step₃ ready
  have all := (first.trans step₄.toGrows ready).trans step₅ ready
  have blocks := advances_whileLoop ready.here.inside step₂.ready.here.inside
    step₄.ready.here.inside (step₂.func step₁.ready).size later.size step₂.advances step₄.advances
  exact ⟨_, all.congr (by simp), blocks⟩

/-! ## Functions -/

theorem canUse_param {index : Nat} {p : Param}
    (found : c.func.params[index]? = some p) (typed : p.ty = .i32) :
    s.CanUse c (.param index .i32) := by
  have usable : s.CanUse c (.param index p.ty) := .param found (by rw [typed]; exact Ty.noConfusion)
  rwa [typed] at usable

/-- The parameters from number `index` on are numbers. -/
def NumbersFrom (index : Nat) (params : List Token) (f : Func) : Prop :=
  ∀ k, k < params.length → ∃ p, f.params[index + k]? = some p ∧ p.ty = .i32

theorem NumbersFrom.tail {index : Nat} {param : Token} {params : List Token} {f F : Func}
    (numbers : NumbersFrom index (param :: params) f) (later : f.Extends F) :
    NumbersFrom (index + 1) params F := by
  intro k bound
  rw [later.params, Nat.add_assoc, Nat.add_comm 1 k]
  exact numbers (k + 1) (Nat.succ_lt_succ bound)

theorem storeParams_yields (index : Nat) (params : List Token) (ready : s.Ready id c)
    (numbers : NumbersFrom index params c.func) :
    Yields (storeParams index params) s fun _ s' => ∃ c', StmtStep False id s c s' c' := by
  induction params generalizing index s c with
  | nil => exact Yields.pure ⟨c, .refl ready⟩
  | cons param params ih =>
    obtain ⟨p, found, typed⟩ := numbers 0 (Nat.succ_pos _)
    rw [Nat.add_zero] at found
    rw [Yields, storeParams_cons_eq ready.here found typed]
    apply (declare_yields ready param (canUse_param found typed)).bind
    rintro _ s₁ ⟨c₁, step₁⟩
    apply (ih (index + 1) step₁.ready (numbers.tail (step₁.func ready))).mono
    rintro _ s₂ ⟨c₂, step₂⟩
    exact ⟨c₂, (step₁.trans step₂ ready).congr (or_self_iff)⟩

theorem numbersFrom_declared (name : String) (params : List Token) :
    NumbersFrom 0 params ((declared name params).addBlock "entry") := by
  intro k bound
  have types := congrArg (·[k]?) (paramTypes_declared name params)
  simp only [Func.paramTypes, List.getElem?_map, Array.getElem?_toList,
    List.getElem?_eq_getElem bound, Option.map_some] at types
  rw [Nat.zero_add, Func.params_addBlock]
  exact Option.map_eq_some_iff.mp types

/-- Lowering stands at the start of a new function. -/
theorem Ready.enter (e : Emitter) (scopes : Scopes) (sound : e.module.Sound) {name : String}
    (params : List Token) (absent : e.module.findFunction? name = none)
    (empty : ∀ x, scopes.lookup x = none) :
    LowerState.Ready ⟨e.enter (declared name params), scopes⟩ e.module.functions.size
      ⟨(declared name params).addBlock "entry", 0⟩ where
  here := e.at_enter (declared name params)
  sound := by
    apply sound.addFunction ((Func.sound_declare _ name _ .i32).addBlock "entry") absent
    exact .inl rfl
  number := rfl
  visible x binding found := by
    rw [empty] at found
    cases found

/-- What has been written of a function that was entered counts for the state before. -/
theorem StmtStep.leave {bad : Prop} {f : Func} {inner : Cursor} (ready : s.Ready id c)
    (declared : f.blocks.size = 0)
    (grows : Grows bad s.emitter.module.functions.size
      ⟨s.emitter.enter f, s.scopes.push .function⟩ inner s' c') (finished : c'.func.Finished) :
    StmtStep bad id s c ⟨{ s'.emitter with point := s.emitter.point }, s'.scopes.pop⟩ c := by
  have added := Module.extends_addFunction s.emitter.module (f.addBlock "entry")
  have same : ∀ k, k < s.emitter.module.functions.size →
      s'.emitter.module.functions[k]? = s.emitter.module.functions[k]? := by
    intro k bound
    rw [grows.others k (Nat.ne_of_lt bound) (Nat.lt_of_lt_of_le bound added.size)]
    exact Array.getElem?_push_lt bound ▸ (Array.getElem?_eq_getElem bound).symm
  -- the scope of the function is dropped with all that was declared in it
  have scopes : s'.scopes.pop = s.scopes := Scopes.pop_of_outer grows.outer
  have empty : ∀ b, (f.addBlock "entry").terminator? b = none := by
    intro b
    rw [Func.terminator?_addBlock, Func.terminator?, Array.size_eq_zero_iff.mp declared]
    rfl
  exact
    { ready :=
        { here :=
            { point := ready.here.point
              function := (same id ready.here.bound).trans ready.here.function
              inside := ready.here.inside }
          sound := grows.ready.sound
          number := ready.number
          visible := scopes ▸ ready.visible }
      module := added.trans grows.module
      others := fun k _ bound => same k bound
      finished := by
        intro k g beyond found
        rcases Nat.eq_or_lt_of_le beyond with new | later
        · -- the function that was entered
          rw [← new, grows.ready.here.function] at found
          exact Option.some.inj found ▸ finished
        · have beyond' : (s.emitter.enter f).module.functions.size ≤ k := by
            simpa [Emitter.enter, Module.addFunction] using Nat.succ_le_of_lt later
          exact grows.finished k g beyond' found
      returns := by rw [grows.returns, Emitter.enter, Module.badReturn_addFunction empty]
      outer := congrArg Scopes.outer scopes
      advances := .refl c }

/-- The body of a function ends in a return. -/
theorem returnZero_finishes {bad : Prop} {s₀ : LowerState} {c₀ : Cursor} (entered : s₀.Ready id c₀)
    (start : c₀.func.blocks.size = 1) (step : StmtStep bad id s₀ c₀ s c) :
    Yields returnZero s fun _ s' => ∃ c', Grows bad id s₀ c₀ s' c' ∧ c'.func.Finished := by
  have ends := Grows.close step.ready (.ret (some (.i32 0))) (fun bad => bad rfl)
    (Value.Usable.constInt rfl)
  apply Yields.of_eq (returnZero_eq step.ready.here)
  refine ⟨_, (step.toGrows.trans ends entered).congr (iff_of_eq (or_false _)), ?_⟩
  -- the entry was the only open block, and what the body opens it ends, but for the last
  have only : c₀.OpenWithin fun _ => False := by
    intro k open_
    have bound := start ▸ open_.1
    have block := start ▸ entered.here.inside
    omega
  exact (step.advances.pending _ only).close step.ready.here.inside _

/-- Where a function is defined, the cursor and the scopes stay as they are. -/
theorem function_yields {bad : Prop} {body : Lower Unit} (name : Token) (params : List Token)
    (lowers : Lowers bad body) (ready : s.Ready id c) :
    Yields (function name params body) s fun _ s' =>
      StmtStep bad id s c s' c ∧ s'.scopes = s.scopes := by
  cases absent : s.emitter.module.findFunction? name.text with
  | some k =>
    have find_eq : emit (Emitter.findFunction name.text) s = .ok (some k) s := by
      rw [← absent]
      rfl
    exact Yields.step find_eq (Yields.throw fun _ => LoweringError.noConfusion)
  | none =>
    have entered := Ready.enter s.emitter (s.scopes.push .function) ready.sound
      params absent (s.scopes.lookup_push_function)
    rw [Yields, function_eq params body absent]
    apply Yields.ensuring
    apply (storeParams_yields 0 params entered (numbersFrom_declared name.text params)).bind
    rintro _ s₁ ⟨c₁, step₁⟩
    apply (lowers s₁ _ c₁ step₁.ready).bind
    rintro _ s₂ ⟨c₂, step₂⟩
    have body := (step₁.trans step₂ entered).congr (iff_of_eq (false_or _))
    apply (returnZero_finishes entered rfl body).mono
    rintro _ s₃ ⟨c₃, grows, finished⟩
    exact ⟨.leave ready rfl grows finished, Scopes.pop_of_outer grows.outer⟩

theorem function_lowers {bad : Prop} {body : Lower Unit} (name : Token) (params : List Token)
    (lowers : Lowers bad body) : Lowers bad (function name params body) :=
  fun _ _ c ready => (function_yields name params lowers ready).mono fun _ _ step => ⟨c, step.1⟩

/-! ## Statements -/

theorem Lowers.congr {bad bad' : Prop} {action : Lower Unit} (lowers : Lowers bad action)
    (same : bad ↔ bad') : Lowers bad' action :=
  propext same ▸ lowers

theorem pure_lowers : Lowers False (pure ()) :=
  fun _ _ c ready => Yields.pure ⟨c, .refl ready⟩

/-- Some return among `values` is bad. -/
def AnyBad (values : List (Option Expr)) : Prop :=
  ∃ value ∈ values, BadValue value

@[simp] theorem anyBad_nil : ¬ AnyBad [] := by simp [AnyBad]

@[simp] theorem anyBad_append (values others : List (Option Expr)) :
    AnyBad (values ++ others) ↔ AnyBad values ∨ AnyBad others := by
  simp only [AnyBad, List.mem_append, or_and_right, exists_or]

@[simp] theorem anyBad_singleton (value : Option Expr) : AnyBad [value] ↔ BadValue value := by
  simp [AnyBad]

theorem roundOf_lowers {bad : Prop} {body : Stmt} (step : Option Expr)
    (lowers : Lowers bad (stmt body)) : Lowers bad (roundOf body step) := by
  cases step with
  | none => exact lowers
  | some step =>
    have round := seq_lowers lowers (effect_evaluates step).lowers
    exact (withBlockScope_lowers round).congr (iff_of_eq (or_false _))

theorem behindInitial_lowers {bad : Prop} {initial : Option Stmt} {loop : Lower Unit}
    (first : Lowers (AnyBad (Stmt.optionalReturns initial)) (optional initial))
    (lowers : Lowers bad loop) :
    Lowers (AnyBad (Stmt.optionalReturns initial) ∨ bad) (behindInitial initial loop) := by
  cases initial with
  | none => exact lowers.congr (by simp [Stmt.optionalReturns])
  | some initial => exact withBlockScope_lowers (seq_lowers first lowers)

mutual

theorem stmt_lowers : ∀ st : Stmt, Lowers (AnyBad st.returns) (stmt st)
  | .expression e => by
    rw [stmt, Stmt.returns]
    exact (effect_evaluates e).lowers.congr (by simp)
  | .print e => (print_evaluates e).lowers.congr (by simp [Stmt.returns])
  | .declare var none => by
    rw [stmt, Stmt.returns]
    intro s id c ready
    apply (declare_yields ready var (.constInt rfl)).mono
    exact fun _ s' ⟨c', step⟩ => ⟨c', step.congr (by simp)⟩
  | .declare var (some e) => by
    rw [stmt, Stmt.returns]
    intro s id c ready
    apply (expr_lowersTo e s id c ready).bind
    rintro v s₁ ⟨c₁, step₁, usable, _⟩
    apply (declare_yields step₁.ready var usable).mono
    rintro _ s₂ ⟨c₂, step₂⟩
    exact ⟨c₂, (step₁.toStmtStep.trans step₂ ready).congr (by simp)⟩
  | .block body => by
    rw [stmt, Stmt.returns]
    exact withBlockScope_lowers (stmts_lowers body)
  | .ifElse test yes no => by
    rw [stmt, Stmt.returns]
    apply (ifElse_lowers (condition_lowersTo test) (stmt_lowers yes) (optional_lowers no)).congr
    simp
  | .whileLoop test body => by
    rw [stmt, Stmt.returns]
    exact whileLoop_lowers (condition_lowersTo test) (stmt_lowers body)
  | .forLoop initial test step body => by
    rw [stmt_forLoop, Stmt.returns]
    have round := roundOf_lowers step (stmt_lowers body)
    have loop := whileLoop_lowers (condition_lowersTo (test.getD Stmt.always)) round
    exact (behindInitial_lowers (optional_lowers initial) loop).congr (by simp)
  | .function name params body => by
    rw [stmt, Stmt.returns]
    exact function_lowers name params (stmts_lowers body)
  | .ret keyword value => (ret_lowers keyword value).congr (by simp [Stmt.returns])
  | .brk _ => by
    rw [stmt, Stmt.returns]
    exact pure_lowers.congr (by simp)

theorem stmts_lowers : ∀ ss : List Stmt, Lowers (AnyBad (Stmt.listReturns ss)) (stmts ss)
  | [] => by
    rw [stmts, Stmt.listReturns]
    exact pure_lowers.congr (by simp)
  | s :: ss => by
    rw [stmts, Stmt.listReturns]
    exact (seq_lowers (stmt_lowers s) (stmts_lowers ss)).congr (by simp)

theorem optional_lowers : ∀ st : Option Stmt, Lowers (AnyBad (Stmt.optionalReturns st)) (optional st)
  | none => by
    rw [optional, Stmt.optionalReturns]
    exact pure_lowers.congr (by simp)
  | some s => by
    rw [optional, Stmt.optionalReturns]
    exact stmt_lowers s

end

end Lower

end ImpCompiler
