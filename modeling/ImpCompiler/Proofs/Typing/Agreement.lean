import ImpCompiler.Proofs.Lowering.Construction
import ImpCompiler.Proofs.Lowering.Reached

/-! # Lowering follows the type discipline

`LowerState.context` keeps of a state of lowering the types of the variables in scope and the
signatures of the functions, which is what the check knows.  One lemma for each form of an
expression or a statement says that lowering it ends as checking it in that context does: with the
same error, or in a state whose context is the one that the check ends in.  So the check decides
which programs can be lowered, and knows the type of every value on the way.

The check goes through the trees by itself, so that the two have to be compared form by form; what concerns
lowering alone is proved of all forms at once (`Lower.Built`). -/

namespace ImpCompiler

open Ssa Typing

/-! ## The context of a state -/

/-- The types of the variables of a scope. -/
def Scope.typed (scope : Scope) : TypeScope :=
  ⟨scope.kind, scope.bindings.map fun (name, binding) => (name, binding.ty)⟩

/-- What is left of a state of lowering when all that has been written is forgotten. -/
def LowerState.context (s : LowerState) : Context where
  innermost := s.scopes.innermost.typed
  outer := s.scopes.outer.map Scope.typed
  functions := s.emitter.module.functions.toList.map Func.signature

theorem Ssa.Func.signature_of_extends {f F : Func} (later : f.Extends F)
    (body : 0 < f.blocks.size) : F.signature = f.signature := by
  have size : F.blocks.isEmpty = f.blocks.isEmpty := by
    have grown := later.size
    rw [Array.isEmpty, Array.isEmpty, decide_eq_decide]
    omega
  rw [Func.signature, Func.signature, later.name, later.paramTypes, later.returnType,
    Func.isDeclaration, Func.isDeclaration, size]

theorem lookup_typed (bindings : List (String × Binding)) (name : String) :
    (bindings.map fun (name, binding) => (name, binding.ty)).lookup name =
      (bindings.lookup name).map Binding.ty := by
  induction bindings with
  | nil => rfl
  | cons entry bindings ih =>
    obtain ⟨other, binding⟩ := entry
    by_cases same : name = other
    · simp [same]
    · simp [List.lookup_cons, beq_false_of_ne same, ih]

theorem lookup_visibleFrom (name : String) (scope : Scope) (outer : List Scope) :
    (visibleFrom scope.typed (outer.map Scope.typed)).lookup name =
      (Scopes.lookupFrom name scope outer).map Binding.ty := by
  induction outer generalizing scope with
  | nil =>
    unfold Scopes.lookupFrom
    rw [List.map_nil, visibleFrom, Scope.typed, lookup_typed]
    cases scope.bindings.lookup name with
    | some binding => rfl
    | none => cases scope.kind <;> rfl
  | cons next outer ih =>
    unfold Scopes.lookupFrom
    have own := lookup_typed scope.bindings name
    cases kind : scope.kind with
    | function =>
      simp only [List.map_cons, visibleFrom, Scope.typed, kind, own]
      cases scope.bindings.lookup name <;> rfl
    | block =>
      have around := ih next
      simp only [List.map_cons, visibleFrom, Scope.typed, kind, List.lookup_append, own] at around ⊢
      rw [around]
      cases scope.bindings.lookup name <;> rfl

namespace LowerState

variable {s : LowerState} {id : Nat} {c : Cursor}

/-- A change of the cursor does not show in the context. -/
theorem context_put (here : s.emitter.At id c) {c' : Cursor} (later : c.func.Extends c'.func) :
    (s.put id c').context = s.context := by
  have same : c'.func.signature = c.func.signature :=
    Func.signature_of_extends later (Nat.zero_lt_of_lt here.inside)
  have bound := here.bound
  have entry : ∃ inside, (s.emitter.module.functions.toList.map Func.signature)[id] =
      c.func.signature := by
    refine ⟨by simpa using bound, ?_⟩
    have found := (Array.getElem?_eq_getElem bound).symm.trans here.function
    simp [Option.some.inj found]
  obtain ⟨_, entry⟩ := entry
  have functions : (s.emitter.module.functions.setIfInBounds id c'.func).toList.map Func.signature =
      s.emitter.module.functions.toList.map Func.signature := by
    rw [Array.toList_setIfInBounds, List.map_set, same, ← entry, List.set_getElem_self]
  simp only [context, put, Emitter.put, functions]

theorem function?_context (s : LowerState) (name : String) :
    s.context.function? name = (s.emitter.module.functionByName? name).map Func.signature := by
  rw [Context.function?, context, List.find?_map, Module.functionByName?, ← Array.find?_toList]
  rfl

theorem function?_of_found {name : String} {k : Nat} {g : Func}
    (found : s.emitter.module.findFunction? name = some k)
    (function : s.emitter.module.functions[k]? = some g) :
    s.context.function? name = some g.signature := by
  obtain ⟨bound, named, first⟩ := Array.findIdx?_eq_some_iff_getElem.mp found
  have this : s.emitter.module.functions[k] = g :=
    Option.some.inj ((Array.getElem?_eq_getElem bound).symm.trans function)
  rw [function?_context, Module.functionByName?, Option.map_eq_some_iff]
  refine ⟨g, Array.find?_eq_some_iff_getElem.mpr ⟨this ▸ named, k, bound, this, ?_⟩, rfl⟩
  intro j before
  simpa using first j before

theorem function?_of_absent {name : String}
    (absent : s.emitter.module.findFunction? name = none) : s.context.function? name = none := by
  rw [function?_context, Module.functionByName?, Option.map_eq_none_iff, Array.find?_eq_none]
  intro f member
  simpa using Array.findIdx?_eq_none_iff.mp absent f member

end LowerState

namespace Lower

variable {α β γ δ : Type} {s s' : LowerState} {id : Nat} {c : Cursor}

/-! ## Ending alike -/

/-- The action ends as the check does: both fail with one error, or `Q` relates their results. -/
def Conforms (action : Lower α) (s : LowerState) (verdict : Checked β)
    (Q : α → LowerState → β → Prop) : Prop :=
  match action s with
  | .ok a s' => ∃ b, verdict = .ok b ∧ Q a s' b
  | .error e _ => verdict = .error e

namespace Conforms

variable {action : Lower α} {verdict : Checked β} {Q : α → LowerState → β → Prop}

theorem of_eq {a : α} {b : β} (done : action s = .ok a s') (result : Q a s' b) :
    Conforms action s (.ok b) Q := by
  rw [Conforms, done]
  exact ⟨b, rfl, result⟩

theorem pure {a : α} {b : β} (result : Q a s b) : Conforms (Pure.pure a) s (.ok b) Q :=
  of_eq rfl result

theorem throw (e : LoweringError) : Conforms (MonadExcept.throw e) s (.error e) Q :=
  rfl

/-- The two ways in which both can end. -/
theorem cases (conforms : Conforms action s verdict Q) :
    (∃ a s' b, action s = .ok a s' ∧ verdict = .ok b ∧ Q a s' b) ∨
      ∃ e s', action s = .error e s' ∧ verdict = .error e := by
  rw [Conforms] at conforms
  split at conforms
  · rename_i a s' run
    obtain ⟨b, same, result⟩ := conforms
    exact .inl ⟨a, s', b, run, same, result⟩
  · rename_i e s' run
    exact .inr ⟨e, s', run, conforms⟩

theorem bind {next : α → Lower γ} {further : β → Checked δ} {R : γ → LowerState → δ → Prop}
    (first : Conforms action s verdict Q)
    (rest : ∀ a s' b, action s = .ok a s' → Q a s' b → Conforms (next a) s' (further b) R) :
    Conforms (action >>= next) s (verdict >>= further) R := by
  rcases first.cases with ⟨a, s', b, run, rfl, result⟩ | ⟨e, s', run, rfl⟩
  · rw [Conforms, bind_eq_of_ok run]
    exact rest a s' b run result
  · rw [Conforms, bind_eq_of_error run]
    rfl

/-- An action that the check does not notice comes first. -/
theorem step {next : γ → Lower α} {first : Lower γ} {a : γ} (done : first s = .ok a s')
    (rest : Conforms (next a) s' verdict Q) : Conforms (first >>= next) s verdict Q := by
  rw [Conforms, bind_eq_of_ok done]
  exact rest

theorem mono {R : α → LowerState → β → Prop} (conforms : Conforms action s verdict Q)
    (weaker : ∀ a s' b, action s = .ok a s' → Q a s' b → R a s' b) :
    Conforms action s verdict R := by
  rcases conforms.cases with ⟨a, s', b, run, rfl, result⟩ | ⟨e, s', run, rfl⟩
  · exact of_eq run (weaker a s' b run result)
  · rw [Conforms, run]

/-- An action that the check does not notice comes last. -/
theorem followed {next : α → Lower γ} {R : γ → LowerState → β → Prop}
    (conforms : Conforms action s verdict Q)
    (rest : ∀ a s' b, action s = .ok a s' → Q a s' b →
      ∃ r s'', next a s' = .ok r s'' ∧ R r s'' b) : Conforms (action >>= next) s verdict R := by
  rcases conforms.cases with ⟨a, s', b, run, rfl, result⟩ | ⟨e, s', run, rfl⟩
  · obtain ⟨r, s'', run', result'⟩ := rest a s' b run result
    exact step run (of_eq run' result')
  · rw [Conforms, bind_eq_of_error run]

theorem ensuring {restore : LowerState → LowerState} {f : β → γ} {R : α → LowerState → γ → Prop}
    (conforms : Conforms action s verdict Q)
    (restored : ∀ a s' b, action s = .ok a s' → Q a s' b → R a (restore s') (f b)) :
    Conforms (Lower.ensuring action restore) s (do let b ← verdict; return f b) R := by
  rcases conforms.cases with ⟨a, s', b, run, rfl, result⟩ | ⟨e, s', run, rfl⟩
  · have done : Lower.ensuring action restore s = .ok a (restore s') := by
      rw [Lower.ensuring, run]
    exact of_eq done (restored a s' b run result)
  · have failed : Lower.ensuring action restore s = .error e (restore s') := by
      rw [Lower.ensuring, run]
    rw [Conforms, failed]
    rfl

end Conforms

/-! ## Expressions -/

/-- A value of the type that the check gives, in the context of before. -/
def HasType (s : LowerState) (v : Value) (s' : LowerState) (ty : Ty) : Prop :=
  v.ty = ty ∧ s'.context = s.context

theorem pushResult_conforms (here : s.emitter.At id c) (ty : Ty) (name : String) (make : Nat → Instr)
    (plain : ∀ k, (make k).isAlloca = false) :
    Conforms (emit (Emitter.pushResult ty name make)) s (.ok ty) (HasType s) := by
  apply Conforms.of_eq (pushResult_eq here ty name make)
  exact ⟨rfl, LowerState.context_put here (Cursor.extends_pushResult here.inside (plain _) ty name)⟩

theorem literal_conforms (t : Token) : Conforms (literal t) s (literalType t) (HasType s) := by
  rw [literal, literalType]
  cases t.kind with
  | intLiteral =>
    dsimp only
    cases int32OfText? t.text with
    | some value => exact Conforms.pure ⟨rfl, rfl⟩
    | none => exact Conforms.throw _
  | floatLiteral =>
    dsimp only
    cases Binary64.ofText? t.text with
    | some bits => exact Conforms.pure ⟨rfl, rfl⟩
    | none => exact Conforms.throw _
  | boolLiteral =>
    dsimp only
    split
    · rename_i text
      rw [if_pos (.inl text)]
      exact Conforms.pure ⟨rfl, rfl⟩
    · rename_i text
      rw [if_pos (.inr text)]
      exact Conforms.pure ⟨rfl, rfl⟩
    · rename_i other other'
      rw [if_neg fun word => word.elim other other']
      exact Conforms.throw _
  | stringLiteral => exact Conforms.of_eq rfl ⟨rfl, rfl⟩
  | _ => exact Conforms.throw _

theorem isSome_arithmeticOp? (op : String) (ty : Ty) :
    (arithmeticOp? op ty).isSome = true ↔ op ∈ ["+", "-", "*", "/"] ∧ isNumber ty = true := by
  unfold arithmeticOp? isNumber
  cases ty.isInt with
  | true =>
    simp only [if_true, Bool.true_or, and_true]
    split <;> simp_all
  | false =>
    cases ty.isFloat with
    | true =>
      simp only [Bool.false_eq_true, if_false, if_true, Bool.false_or, and_true]
      split <;> simp_all
    | false => simp

theorem isSome_intTest? (op : String) :
    (intTest? op).isSome = true ↔ op ∈ ["<", ">", "<=", ">=", "==", "!="] := by
  unfold intTest?
  split <;> simp_all

theorem isSome_floatTest? (op : String) :
    (floatTest? op).isSome = true ↔ op ∈ ["<", ">", "<=", ">=", "==", "!="] := by
  unfold floatTest?
  split <;> simp_all

theorem binary_conforms (here : s.emitter.At id c) (op : Token) (left right : Value) :
    Conforms (binary op left right) s (binaryType op left.ty right.ty) (HasType s) := by
  rw [binary, binaryType]
  by_cases same : left.ty = right.ty
  · rw [if_neg (not_not_intro same), if_neg (not_not_intro same)]
    cases op.kind with
    | arithmetic =>
      have known := isSome_arithmeticOp? op.text left.ty
      dsimp only
      cases found : arithmeticOp? op.text left.ty with
      | some entry =>
        rw [found] at known
        rw [if_pos (known.mp rfl)]
        exact pushResult_conforms here _ _ _ fun _ => rfl
      | none =>
        rw [found] at known
        rw [if_neg fun fits => Bool.false_ne_true (known.mpr fits)]
        exact Conforms.throw _
    | compare =>
      have known := isSome_intTest? op.text
      have known' := isSome_floatTest? op.text
      dsimp only
      cases int : left.ty.isInt with
      | true =>
        have number : isNumber left.ty = true := by rw [isNumber, int, Bool.true_or]
        rw [if_pos rfl]
        cases found : intTest? op.text with
        | some test =>
          rw [found] at known
          rw [if_pos ⟨known.mp rfl, number⟩]
          exact pushResult_conforms here _ _ _ fun _ => rfl
        | none =>
          rw [found] at known
          rw [if_neg fun fits => Bool.false_ne_true (known.mpr fits.1)]
          exact Conforms.throw _
      | false =>
        have number : isNumber left.ty = left.ty.isFloat := by rw [isNumber, int, Bool.false_or]
        rw [if_neg Bool.false_ne_true, number]
        cases left.ty.isFloat with
        | true =>
          rw [if_pos rfl]
          cases found : floatTest? op.text with
          | some test =>
            rw [found] at known'
            rw [if_pos ⟨known'.mp rfl, rfl⟩]
            exact pushResult_conforms here _ _ _ fun _ => rfl
          | none =>
            rw [found] at known'
            rw [if_neg fun fits => Bool.false_ne_true (known'.mpr fits.1)]
            exact Conforms.throw _
        | false =>
          rw [if_neg Bool.false_ne_true, if_neg fun fits => Bool.false_ne_true fits.2]
          exact Conforms.throw _
    | _ => exact Conforms.throw _
  · rw [if_pos same, if_pos same]
    exact Conforms.throw _

theorem unary_conforms (here : s.emitter.At id c) (op : Token) (operand : Value) :
    Conforms (unary op operand) s (unaryType op operand.ty) (HasType s) := by
  rw [unary, unaryType]
  split
  · rename_i minus
    cases int : operand.ty.isInt with
    | true =>
      rw [if_pos rfl, if_pos (by simp [minus, isNumber, int])]
      exact pushResult_conforms here _ _ _ fun _ => rfl
    | false =>
      rw [if_neg Bool.false_ne_true]
      cases float : operand.ty.isFloat with
      | true =>
        rw [if_pos rfl, if_pos (by simp [minus, isNumber, float]), eq_f64_of_isFloat float]
        exact pushResult_conforms here _ _ _ fun _ => rfl
      | false =>
        rw [if_neg Bool.false_ne_true, if_neg (by simp [isNumber, int, float])]
        exact Conforms.throw _
  · rename_i complement
    cases int : operand.ty.isInt with
    | true =>
      rw [if_pos rfl, if_pos (by simp [complement])]
      exact pushResult_conforms here _ _ _ fun _ => rfl
    | false =>
      rw [if_neg Bool.false_ne_true, if_neg (by simp [complement])]
      exact Conforms.throw _
  · rename_i notMinus notComplement
    rw [if_neg fun fits => fits.elim (fun minus => notMinus minus.1) fun not => notComplement not.1]
    exact Conforms.throw _

theorem lookup_conforms (s : LowerState) (name : Token) :
    Conforms (lookup name) s (s.context.variableType name) fun binding s' ty =>
      s' = s ∧ binding.ty = ty := by
  have get_eq : (get : Lower LowerState) s = .ok s s := rfl
  have visible := lookup_visibleFrom name.text s.scopes.innermost s.scopes.outer
  apply Conforms.step get_eq
  rw [Context.variableType]
  simp only [LowerState.context, visible, Scopes.lookup]
  cases Scopes.lookupFrom name.text s.scopes.innermost s.scopes.outer with
  | some binding => exact Conforms.pure ⟨rfl, rfl⟩
  | none => exact Conforms.throw _

theorem assign_conforms (here : s.emitter.At id c) (target : Token) (value : Value) :
    Conforms (assign target value) s
      (do
        let slot ← s.context.variableType target
        if value.ty ≠ slot then
          throw (.typeMismatch "=" slot value.ty target.position)
        else
          return slot)
      (HasType s) := by
  apply (lookup_conforms s target).bind
  intro binding s' ty _ found
  obtain ⟨rfl, rfl⟩ := found
  by_cases same : value.ty = binding.ty
  · rw [if_neg (not_not_intro same), if_neg (not_not_intro same)]
    apply Conforms.step (push_eq here (.store value binding.slot))
    exact Conforms.pure ⟨same, LowerState.context_put here (Cursor.extends_push here.inside rfl)⟩
  · rw [if_pos same, if_pos same]
    exact Conforms.throw _

/-- The result of a call of a function that returns `ty`. -/
def HasCallType (s : LowerState) (v? : Option Value) (s' : LowerState) (ty : Ty) : Prop :=
  v?.map Value.ty = (if ty = .void then none else some ty) ∧ s'.context = s.context

theorem emit_call_conforms (here : s.emitter.At id c) {callee : Nat} {g : Func}
    (found : s.emitter.module.functions[callee]? = some g) (args : List Value) (name : String) :
    Conforms (emit (Emitter.call callee args name)) s (.ok g.returnType) (HasCallType s) := by
  have run := Emitter.call_eq here found args name
  by_cases void : g.returnType = .void
  · rw [if_pos void] at run
    apply Conforms.of_eq (emit_eq run)
    exact ⟨by simp [void], LowerState.context_put here (Cursor.extends_push here.inside rfl)⟩
  · rw [if_neg void] at run
    apply Conforms.of_eq (emit_eq run)
    exact ⟨by simp [void, Value.ty],
      LowerState.context_put here (Cursor.extends_pushResult here.inside rfl _ _)⟩

/-- A call, given that its arguments are lowered as they are checked. -/
theorem call_conforms (ready : s.Ready id c) (callee : Token) {arguments : List Expr}
    (conforms : ∀ types, Conforms (args callee.text 0 arguments types) s
      (checkArguments s.context callee.text 0 arguments types) fun _ s' _ => s'.context = s.context) :
    Conforms (call callee arguments.length (args callee.text 0 arguments)) s
      (callType s.context callee arguments.length
        (checkArguments s.context callee.text 0 arguments))
      (HasCallType s) := by
  have find_eq : emit (Emitter.findFunction callee.text) s =
    .ok (s.emitter.module.findFunction? callee.text) s := rfl
  rw [call, callType]
  apply Conforms.step find_eq
  cases found : s.emitter.module.findFunction? callee.text with
  | none =>
    rw [LowerState.function?_of_absent found]
    exact Conforms.throw _
  | some k =>
    obtain ⟨g, function, _⟩ := Module.findFunction?_eq_some found
    rw [LowerState.function?_of_found found function]
    apply Conforms.step (emit_eq (Emitter.function_eq_of_found function))
    by_cases count : g.paramTypes.length = arguments.length
    · simp only [Func.signature, count, ne_eq, not_true_eq_false, if_false]
      apply (conforms g.paramTypes).bind
      intro values s' _ run same
      obtain ⟨c', step, _⟩ := (args_gives callee.text 0 arguments ready g.paramTypes count).ok run
      -- the callee may be the current function, which has grown since it was found
      obtain ⟨G, function', later⟩ := step.module.functions k g function
      rw [← later.returnType]
      apply (emit_call_conforms step.ready.here function' values "calltmp").mono
      intro v? s'' ty _ result
      exact ⟨result.1, result.2.trans same⟩
    · simp only [Func.signature, count, ne_eq, not_false_eq_true, if_true]
      exact Conforms.throw _

mutual

theorem expr_conforms : ∀ (e : Expr) {s : LowerState} {id : Nat} {c : Cursor}, s.Ready id c →
    Conforms (expr e) s (exprType s.context e) (HasType s)
  | .binary left op right, s, id, c, ready => by
    rw [expr, exprType]
    apply (expr_conforms left ready).bind
    intro l s₁ _ run₁ left
    obtain ⟨rfl, same₁⟩ := left
    obtain ⟨c₁, step₁, _⟩ := (expr_lowersTo _ s id c ready).ok run₁
    rw [← same₁]
    apply (expr_conforms right step₁.ready).bind
    intro r s₂ _ run₂ right
    obtain ⟨rfl, same₂⟩ := right
    obtain ⟨c₂, step₂, _⟩ := (expr_lowersTo _ s₁ id c₁ step₁.ready).ok run₂
    apply (binary_conforms step₂.ready.here op l r).mono
    intro v s₃ ty _ result
    exact ⟨result.1, result.2.trans (same₂.trans same₁)⟩
  | .unary op operand, s, id, c, ready => by
    rw [expr, exprType]
    apply (expr_conforms operand ready).bind
    intro v s₁ _ run₁ operand
    obtain ⟨rfl, same⟩ := operand
    obtain ⟨c₁, step₁, _⟩ := (expr_lowersTo _ s id c ready).ok run₁
    apply (unary_conforms step₁.ready.here op v).mono
    intro w s₂ ty _ result
    exact ⟨result.1, result.2.trans same⟩
  | .literal value, s, id, c, ready => by
    rw [expr, exprType]
    exact literal_conforms value
  | .name var, s, id, c, ready => by
    rw [expr, exprType]
    apply (lookup_conforms s var).bind
    intro binding s' ty _ found
    obtain ⟨rfl, _⟩ := found
    exact pushResult_conforms ready.here _ _ _ fun _ => rfl
  | .assign target value, s, id, c, ready => by
    rw [expr, exprType]
    apply (expr_conforms value ready).bind
    intro v s₁ _ run₁ value
    obtain ⟨rfl, same⟩ := value
    obtain ⟨c₁, step₁, _⟩ := (expr_lowersTo _ s id c ready).ok run₁
    rw [← same]
    apply (assign_conforms step₁.ready.here target v).mono
    intro w s₂ ty _ result
    exact ⟨result.1, result.2.trans same⟩
  | .call callee arguments, s, id, c, ready => by
    rw [expr, exprType]
    have conforms := fun types => args_conforms callee.text 0 arguments types ready
    apply (call_conforms ready callee conforms).bind
    intro v? s' ty _ result
    obtain ⟨typed, same⟩ := result
    by_cases void : ty = .void
    · rw [if_pos void] at typed ⊢
      rw [Option.map_eq_none_iff.mp typed]
      exact Conforms.throw _
    · rw [if_neg void] at typed ⊢
      obtain ⟨v, rfl, number⟩ := Option.map_eq_some_iff.mp typed
      exact Conforms.pure ⟨number, same⟩
  | .group inner, s, id, c, ready => by
    rw [expr, exprType]
    exact expr_conforms inner ready

theorem args_conforms (callee : String) (index : Nat) : ∀ (es : List Expr) (types : List Ty)
    {s : LowerState} {id : Nat} {c : Cursor}, s.Ready id c →
      Conforms (args callee index es types) s (checkArguments s.context callee index es types)
        fun _ s' _ => s'.context = s.context
  | [], types, s, id, c, ready => by
    simp only [args, checkArguments]
    exact Conforms.pure rfl
  | e :: es, [], s, id, c, ready => by
    simp only [args, checkArguments]
    exact Conforms.pure rfl
  | e :: es, ty :: types, s, id, c, ready => by
    rw [args, checkArguments]
    apply (expr_conforms e ready).bind
    intro v s₁ _ run₁ first
    obtain ⟨rfl, same₁⟩ := first
    obtain ⟨c₁, step₁, _⟩ := (expr_lowersTo _ s id c ready).ok run₁
    by_cases fits : v.ty = ty
    · rw [if_neg (not_not_intro fits), if_neg (not_not_intro fits)]
      have rest := args_conforms callee (index + 1) es types step₁.ready
      rw [same₁] at rest
      exact rest.followed fun _ _ _ _ same => ⟨_, _, rfl, same⟩
    · rw [if_pos fits, if_pos fits]
      exact Conforms.throw _

end

/-! ## Simple statements -/

/-- A step that ends in the context `Γ`. -/
def InContext (_ : α) (s : LowerState) (Γ : Context) : Prop :=
  s.context = Γ

/-- The action ends as the check does wherever lowering stands. -/
def Follows (action : Lower Unit) (check : Context → Checked Context) : Prop :=
  ∀ s id c, s.Ready id c → Conforms action s (check s.context) InContext

theorem effect_conforms (e : Expr) (ready : s.Ready id c) :
    Conforms (effect e) s (checkEffect s.context e) fun _ s' _ => s'.context = s.context := by
  have discard : ∀ e, Conforms (do let _ ← expr e) s (do let _ ← exprType s.context e)
      fun _ s' _ => s'.context = s.context := by
    intro e
    apply (expr_conforms e ready).bind
    intro v s' ty _ result
    exact Conforms.pure result.2
  cases e with
  | call callee arguments =>
    have conforms := fun types => args_conforms callee.text 0 arguments types ready
    apply (call_conforms ready callee conforms).bind
    intro v? s' ty _ result
    exact Conforms.pure result.2
  | _ => exact discard _

theorem test_conforms (here : s.emitter.At id c) (value : Value) (position : Position) :
    Conforms (test value position) s
      (if isNumber value.ty then return () else throw (.invalidCondition value.ty position))
      fun _ s' _ => s'.context = s.context := by
  rw [test]
  have emitted : ∀ {action : Lower Value} {ty : Ty}, Conforms action s (.ok ty) (HasType s) →
      Conforms action s (.ok ()) fun _ s' _ => s'.context = s.context := by
    intro action ty conforms
    rcases conforms.cases with ⟨a, s', b, run, _, result⟩ | ⟨e, s', _, failed⟩
    · exact Conforms.of_eq run result.2
    · cases failed
  cases ty : value.ty with
  | i1 => exact Conforms.pure rfl
  | i32 => exact emitted (pushResult_conforms here _ _ _ fun _ => rfl)
  | f64 => exact emitted (pushResult_conforms here _ _ _ fun _ => rfl)
  | void => exact Conforms.throw _
  | ptr => exact Conforms.throw _

theorem condition_conforms (e : Expr) (ready : s.Ready id c) :
    Conforms (condition e) s (checkCondition s.context e) fun _ s' _ => s'.context = s.context := by
  apply (expr_conforms e ready).bind
  intro v s₁ _ run result
  obtain ⟨rfl, same⟩ := result
  obtain ⟨c₁, step, _⟩ := (expr_lowersTo e s id c ready).ok run
  rw [← same]
  exact test_conforms step.ready.here v e.position

theorem context_addFunction (s : LowerState) (f : Func) :
    LowerState.context { s with emitter := { s.emitter with
      module := s.emitter.module.addFunction f } } = s.context.addFunction f.signature := by
  simp [LowerState.context, Module.addFunction, Context.addFunction]

theorem printFunction_conforms (s : LowerState) (routine : PrintRoutine) (position : Position) :
    Conforms (printFunction routine position) s (useRoutine s.context routine position) InContext := by
  have find_eq : emit (Emitter.findFunction routine.name) s =
    .ok (s.emitter.module.findFunction? routine.name) s := rfl
  apply Conforms.step find_eq
  rw [useRoutine]
  cases found : s.emitter.module.findFunction? routine.name with
  | none =>
    have run : emit (Emitter.addFunction routine.name [⟨"", routine.param⟩] .void) s =
      .ok s.emitter.module.functions.size { s with emitter := { s.emitter with
        module := s.emitter.module.addFunction
          (.declare routine.name [⟨"", routine.param⟩] .void) } } := rfl
    rw [LowerState.function?_of_absent found]
    apply Conforms.of_eq run
    rw [InContext, context_addFunction, Func.signature, Func.paramTypes_declare]
    rfl
  | some k =>
    obtain ⟨g, function, named⟩ := Module.findFunction?_eq_some found
    have same : (g.isDeclaration ∧ g.returnType = .void ∧ g.paramTypes = [routine.param]) ↔
        g.signature = routineSignature routine := by
      simp only [Func.signature, routineSignature, named, Signature.mk.injEq, true_and]
      exact ⟨fun ⟨a, b, c⟩ => ⟨c, b, a⟩, fun ⟨a, b, c⟩ => ⟨c, b, a⟩⟩
    rw [LowerState.function?_of_found found function]
    apply Conforms.step (emit_eq (Emitter.function_eq_of_found function))
    by_cases fits : g.signature = routineSignature routine
    · rw [if_pos (same.mpr fits)]
      simp only [fits, if_true]
      exact Conforms.pure rfl
    · rw [if_neg fun other => fits (same.mp other)]
      simp only [fits, if_false]
      exact Conforms.throw _

theorem printWith_conforms (ready : s.Ready id c) (routine : PrintRoutine) (argument : Value)
    (position : Position) :
    Conforms (printWith routine argument position) s (useRoutine s.context routine position)
      InContext := by
  apply (printFunction_conforms s routine position).followed
  intro k s₁ Γ run same
  obtain ⟨step, g, function, _⟩ := (printFunction_yields ready routine position).ok run
  obtain ⟨v?, s₂, ty, run', _, result⟩ | ⟨e, s₂, _, failed⟩ :=
    (emit_call_conforms step.ready.here function [argument] "").cases
  · exact ⟨(), s₂, bind_eq_of_ok run', result.2.trans same⟩
  · cases failed

theorem print_conforms (ready : s.Ready id c) {value : Value} (usable : s.CanUse c value)
    (position : Position) :
    Conforms (print value position) s
      (match printRoutine? value.ty with
        | some routine => useRoutine s.context routine position
        | none => throw (.unsupportedPrint value.ty position))
      InContext := by
  rw [print]
  cases typed : value.ty with
  | ptr => exact printWith_conforms ready .text value position
  | i32 => exact printWith_conforms ready .integer value position
  | f64 => exact printWith_conforms ready .real value position
  | void => exact Conforms.throw _
  | i1 =>
    have run := pushResult_eq ready.here .i32 "widened" fun result => .zext result value .i32
    have same := LowerState.context_put ready.here (Cursor.extends_pushResult ready.here.inside
      (i := .zext c.func.locals.size value .i32) rfl .i32 "widened")
    have widens : ExprStep id s c _ _ := .pushResult ready (i := .zext c.func.locals.size value .i32)
      rfl ⟨usable, by rw [typed]; rfl, rfl⟩ trivial .i32 "widened"
    apply Conforms.step run
    have prints := printWith_conforms widens.ready .integer (.result c.func.locals.size .i32) position
    rw [same] at prints
    exact prints

theorem print_follows (e : Expr) : Follows (stmt (.print e)) (checkStmt (.print e)) := by
  intro s id c ready
  rw [stmt, checkStmt, checkPrint]
  apply (expr_conforms e ready).bind
  intro v s₁ _ run result
  obtain ⟨rfl, same⟩ := result
  obtain ⟨c₁, step, usable, _⟩ := (expr_lowersTo e s id c ready).ok run
  rw [← same]
  exact print_conforms step.ready usable e.position

theorem declare_conforms (here : s.emitter.At id c) (var : Token) (value : Value) :
    Conforms (declare var value) s (.ok (s.context.declare var.text value.ty)) InContext := by
  have there : (s.put id (c.alloca value.ty var.text)).emitter.At id (c.alloca value.ty var.text) :=
    here.put (by simpa [Cursor.alloca] using here.inside)
  have same := LowerState.context_put here (Cursor.extends_alloca here.inside value.ty var.text)
  have same' := LowerState.context_put there (Cursor.extends_push there.inside
    (i := .store value (.result c.func.locals.size .ptr)) rfl)
  apply Conforms.step (alloca_eq here value.ty var.text)
  apply Conforms.step (push_eq there (.store value (.result c.func.locals.size .ptr)))
  apply Conforms.of_eq rfl
  rw [← same, ← same']
  rfl

/-! ## Compound statements -/

theorem seq_follows {bad : Prop} {first second : Lower Unit} {check check' : Context → Checked Context}
    (lowers : Lowers bad first) (follows : Follows first check) (follows' : Follows second check') :
    Follows (do first; second) (fun Γ => do check' (← check Γ)) := by
  intro s id c ready
  apply (follows s id c ready).bind
  intro _ s₁ Γ run same
  obtain ⟨c₁, step⟩ := (lowers s id c ready).ok run
  rw [← same]
  exact follows' s₁ id c₁ step.ready

theorem withBlockScope_follows {bad : Prop} {body : Lower Unit} {check : Context → Checked Context}
    (lowers : Lowers bad body) (follows : Follows body check) :
    Follows (withBlockScope body) (checkScoped check) := by
  intro s id c ready
  have inner := Ready.pushBlock ready
  have push_eq : modifyScopes (·.push .block) s =
    .ok () { s with scopes := s.scopes.push .block } := rfl
  apply Conforms.step push_eq
  apply (follows _ id c inner).ensuring
  intro _ s' Γ run same
  obtain ⟨c', step⟩ := (lowers _ id c inner).ok run
  have scopes : s'.scopes.pop = s.scopes := Scopes.pop_of_outer step.outer
  rw [InContext] at same ⊢
  rw [← same]
  simp [LowerState.context, Context.leave, scopes]

theorem ifElse_follows {bad bad' : Prop} (test : Expr) {yes no : Lower Unit}
    {checkYes checkNo : Context → Checked Context} (lowersYes : Lowers bad yes)
    (lowersNo : Lowers bad' no) (followsYes : Follows yes checkYes) (followsNo : Follows no checkNo) :
    Follows (ifElse (condition test) yes no) (fun Γ => do
      checkCondition Γ test
      checkNo (← checkYes Γ)) := by
  intro s id c ready
  dsimp only
  rcases (condition_conforms test ready).cases with
    ⟨v, s₁, _, run, checked, same⟩ | ⟨e, s₁, run, checked⟩
  · obtain ⟨c₁, step₁, usable, typed⟩ := (condition_lowersTo test s id c ready).ok run
    have ready₁ := step₁.ready
    have opened := Grows.atThen ready₁ usable typed
    have same₁ := LowerState.context_put ready₁.here (opened.func ready₁)
    have first := followsYes _ id _ opened.ready
    rw [same₁, same] at first
    rw [Conforms, ifElse_eq yes no run ready₁.here, checked]
    apply first.bind
    intro _ s₂ Γ run₂ same₂
    obtain ⟨c₂, step₂⟩ := (lowersYes _ id _ opened.ready).ok run₂
    have between := grows_atElse ready₁ opened step₂
    have second := followsNo _ id _ between.ready
    rw [LowerState.context_put step₂.ready.here (between.func step₂.ready), same₂] at second
    apply Conforms.step (jump_eq step₂.ready.here _ _)
    apply second.followed
    intro _ s₃ Γ' run₃ same₃
    obtain ⟨c₃, step₃⟩ := (lowersNo _ id _ between.ready).ok run₃
    have joined := grows_atJoin ready₁ opened step₂ step₃
    refine ⟨(), _, jump_eq step₃.ready.here _ _, ?_⟩
    exact (LowerState.context_put step₃.ready.here (joined.func step₃.ready)).trans same₃
  · have failed : ifElse (condition test) yes no s = .error e s₁ := bind_eq_of_error run
    rw [checked, Conforms, failed]
    rfl

theorem whileLoop_follows {bad : Prop} (test : Expr) {body : Lower Unit}
    {check : Context → Checked Context} (lowers : Lowers bad body) (follows : Follows body check) :
    Follows (whileLoop (condition test) body) (fun Γ => do
      checkCondition Γ test
      check Γ) := by
  intro s id c ready
  have opened := Grows.atCondition ready
  have tested := condition_conforms test opened.ready
  rw [LowerState.context_put ready.here (opened.func ready)] at tested
  rw [Conforms, whileLoop_eq (condition test) body ready.here]
  apply tested.bind
  intro v s₁ _ run₁ same₁
  obtain ⟨c₁, step₁, usable, typed⟩ := (condition_lowersTo test _ id _ opened.ready).ok run₁
  have forked := grows_atBody ready step₁ usable typed
  have round := follows _ id _ forked.ready
  rw [LowerState.context_put step₁.ready.here (forked.func step₁.ready), same₁] at round
  apply Conforms.step (fork_eq step₁.ready.here v _ _ _)
  apply round.followed
  intro _ s₂ Γ run₂ same₂
  obtain ⟨c₂, step₂⟩ := (lowers _ id _ forked.ready).ok run₂
  have left := grows_atAfter ready step₁ forked step₂
  refine ⟨(), _, jump_eq step₂.ready.here _ _, ?_⟩
  exact (LowerState.context_put step₂.ready.here (left.func step₂.ready)).trans same₂

/-! ## Functions -/

theorem storeParams_conforms (index : Nat) (params : List Token) (ready : s.Ready id c)
    (numbers : NumbersFrom index params c.func) :
    Conforms (storeParams index params) s
      (.ok (params.foldl (fun Γ p => Γ.declare p.text .i32) s.context)) InContext := by
  induction params generalizing index s c with
  | nil => exact Conforms.pure rfl
  | cons param params ih =>
    obtain ⟨p, found, typed⟩ := numbers 0 (Nat.succ_pos _)
    rw [Nat.add_zero] at found
    rw [Conforms, storeParams_cons_eq ready.here found typed]
    have declares := declare_conforms ready.here param (.param index .i32)
    obtain ⟨_, s₁, Γ, run, checked, same⟩ | ⟨e, s₁, _, failed⟩ := declares.cases
    · obtain ⟨c₁, step⟩ := (declare_yields ready param (canUse_param found typed)).ok run
      have rest := ih (index + 1) step.ready (numbers.tail (step.func ready))
      rw [show s₁.context = _ from same, ← Except.ok.inj checked] at rest
      exact Conforms.step run rest
    · cases failed

theorem context_enter (s : LowerState) (name : String) (params : List Token) :
    LowerState.context ⟨s.emitter.enter (declared name params), s.scopes.push .function⟩ =
      (s.context.addFunction ⟨name, params.map fun _ => .i32, .i32, false⟩).enter .function := by
  have signature : ((declared name params).addBlock "entry").signature =
      ⟨name, params.map fun _ => .i32, .i32, false⟩ := by
    rw [← paramTypes_declared name params]
    simp [Func.signature, Func.isDeclaration, Func.paramTypes, Func.addBlock, declared, Func.declare]
  simp only [LowerState.context, Emitter.enter, Module.addFunction, Array.toList_push, List.map_append,
    List.map_cons, List.map_nil, signature]
  rfl

/-- What is lowered within a function: its parameters, its body, and the return at its end. -/
theorem functionBody_conforms {bad : Prop} (params : List Token) {body : Lower Unit}
    {check : Context → Checked Context} (lowers : Lowers bad body) (follows : Follows body check)
    (entered : s.Ready id c) (numbers : NumbersFrom 0 params c.func) :
    Conforms
      (do
        storeParams 0 params
        body
        returnZero) s
      (check (params.foldl (fun Γ p => Γ.declare p.text .i32) s.context))
      fun _ s' Γ => s'.context = Γ ∧ s'.scopes.outer = s.scopes.outer := by
  obtain ⟨_, s₁, Γ, run₁, checked, same₁⟩ | ⟨e, s₁, _, failed⟩ :=
    (storeParams_conforms 0 params entered numbers).cases
  · obtain ⟨c₁, step₁⟩ := (storeParams_yields 0 params entered numbers).ok run₁
    have inside := follows s₁ _ c₁ step₁.ready
    rw [show s₁.context = Γ from same₁, ← Except.ok.inj checked] at inside
    apply Conforms.step run₁
    apply inside.followed
    intro _ s₂ Γ' run₂ same₂
    obtain ⟨c₂, step₂⟩ := (lowers _ _ _ step₁.ready).ok run₂
    have ends := Grows.close step₂.ready (.ret (some (.i32 0))) (fun bad => bad rfl)
      (Value.Usable.constInt rfl)
    refine ⟨(), _, returnZero_eq step₂.ready.here, ?_, ?_⟩
    · exact (LowerState.context_put step₂.ready.here (ends.func step₂.ready)).trans same₂
    · exact step₂.outer.trans step₁.outer
  · cases failed

theorem function_follows {bad : Prop} (name : Token) (params : List Token) {body : Lower Unit}
    {check : Context → Checked Context} (lowers : Lowers bad body) (follows : Follows body check) :
    Follows (function name params body) (checkFunction name params check) := by
  intro s id c ready
  rw [checkFunction]
  cases absent : s.emitter.module.findFunction? name.text with
  | some k =>
    obtain ⟨g, function, _⟩ := Module.findFunction?_eq_some absent
    have find_eq : emit (Emitter.findFunction name.text) s = .ok (some k) s := by
      rw [← absent]
      rfl
    rw [LowerState.function?_of_found absent function]
    exact Conforms.step find_eq (Conforms.throw _)
  | none =>
    have entered := Ready.enter s.emitter (s.scopes.push .function) ready.sound
      params absent (s.scopes.lookup_push_function)
    have inside := functionBody_conforms params lowers follows entered
      (numbersFrom_declared name.text params)
    rw [context_enter] at inside
    rw [LowerState.function?_of_absent absent, Conforms, function_eq params body absent]
    apply inside.ensuring
    intro _ s' Γ _ result
    obtain ⟨rfl, outer⟩ := result
    have scopes : s'.scopes.pop = s.scopes := Scopes.pop_of_outer outer
    simp [InContext, LowerState.context, Context.leave, scopes]

/-! ## Programs -/

theorem effect_follows (e : Expr) : Follows (effect e) fun Γ => do
    checkEffect Γ e
    return Γ := by
  intro s id c ready
  dsimp only
  rcases (effect_conforms e ready).cases with ⟨_, s', _, run, checked, same⟩ | ⟨e, s', run, checked⟩
  · rw [checked]
    exact Conforms.of_eq run same
  · rw [checked, Conforms, run]
    rfl

theorem ret_follows (keyword : Token) (value : Option Expr) :
    Follows (stmt (.ret keyword value)) (checkStmt (.ret keyword value)) := by
  intro s id c ready
  have ends : ∀ {s : LowerState} {c : Cursor} (here : s.emitter.At id c) (t : Terminator),
      (s.put id (c.terminate t)).context = s.context := fun here t =>
    LowerState.context_put here (Cursor.extends_terminate here.inside t)
  cases value with
  | none =>
    rw [stmt, checkStmt]
    exact Conforms.of_eq (terminate_eq ready.here _) (ends ready.here _)
  | some e =>
    rw [stmt, checkStmt]
    apply (expr_conforms e ready).bind
    intro v s₁ ty run result
    obtain ⟨c₁, step, _⟩ := (expr_lowersTo e s id c ready).ok run
    apply Conforms.of_eq (terminate_eq step.ready.here _)
    exact (ends step.ready.here _).trans result.2

theorem roundOf_follows {body : Stmt} (step : Option Expr)
    (follows : Follows (stmt body) (checkStmt body)) :
    Follows (roundOf body step)
      (match step with
        | none => checkStmt body
        | some step => checkScoped fun Γ => do
          let Γ ← checkStmt body Γ
          checkEffect Γ step
          return Γ) := by
  cases step with
  | none => exact follows
  | some step =>
    have round := seq_lowers (stmt_lowers body) (effect_evaluates step).lowers
    exact withBlockScope_follows round (seq_follows (stmt_lowers body) follows (effect_follows step))

theorem behindInitial_follows {bad : Prop} {initial : Option Stmt} {loop : Lower Unit}
    {check : Context → Checked Context} (first : Follows (optional initial) (checkOptional initial))
    (lowers : Lowers bad loop) (follows : Follows loop check) :
    Follows (behindInitial initial loop)
      (if initial.isSome then
        checkScoped fun Γ => do
          let Γ ← checkOptional initial Γ
          check Γ
      else
        check) := by
  cases initial with
  | none => exact follows
  | some initial =>
    have lowersFirst := optional_lowers (some initial)
    exact withBlockScope_follows (seq_lowers lowersFirst lowers) (seq_follows lowersFirst first follows)

mutual

theorem stmt_follows : ∀ st : Stmt, Follows (stmt st) (checkStmt st)
  | .expression e => by
    rw [stmt]
    exact effect_follows e
  | .print e => print_follows e
  | .declare var none => by
    intro s id c ready
    rw [stmt, checkStmt]
    exact declare_conforms ready.here var (.i32 0)
  | .declare var (some e) => by
    intro s id c ready
    rw [stmt, checkStmt]
    apply (expr_conforms e ready).bind
    intro v s₁ _ run result
    obtain ⟨rfl, same⟩ := result
    obtain ⟨c₁, step, _⟩ := (expr_lowersTo e s id c ready).ok run
    rw [← same]
    exact declare_conforms step.ready.here var v
  | .block body => by
    rw [stmt]
    exact withBlockScope_follows (stmts_lowers body) (stmts_follows body)
  | .ifElse test yes no => by
    rw [stmt]
    exact ifElse_follows test (stmt_lowers yes) (optional_lowers no) (stmt_follows yes)
      (optional_follows no)
  | .whileLoop test body => by
    rw [stmt]
    exact whileLoop_follows test (stmt_lowers body) (stmt_follows body)
  | .forLoop initial test step body => by
    have lowers := roundOf_lowers step (stmt_lowers body)
    have loop := whileLoop_follows (test.getD Stmt.always) lowers
      (roundOf_follows step (stmt_follows body))
    rw [stmt_forLoop]
    have whole := behindInitial_follows (optional_follows initial)
      (whileLoop_lowers (condition_lowersTo (test.getD Stmt.always)) lowers) loop
    cases initial with
    | none => exact whole
    | some initial => exact whole
  | .function name params body => by
    rw [stmt]
    exact function_follows name params (stmts_lowers body) (stmts_follows body)
  | .ret keyword value => ret_follows keyword value
  | .brk _ => by
    intro s id c ready
    rw [stmt, checkStmt]
    exact Conforms.pure rfl

theorem stmts_follows : ∀ ss : List Stmt, Follows (stmts ss) (checkStmts ss)
  | [] => by
    intro s id c ready
    rw [stmts, checkStmts]
    exact Conforms.pure rfl
  | st :: ss => by
    rw [stmts]
    exact seq_follows (stmt_lowers st) (stmt_follows st) (stmts_follows ss)

theorem optional_follows : ∀ st : Option Stmt, Follows (optional st) (checkOptional st)
  | none => by
    intro s id c ready
    rw [optional, checkOptional]
    exact Conforms.pure rfl
  | some st => by
    rw [optional]
    exact stmt_follows st

end

/-- What the run of an action on a program amounts to in names and types. -/
def outcome : EStateM.Result LoweringError LowerState α → Checked Context
  | .ok _ s => .ok s.context
  | .error e _ => .error e

/-- The type of the value that an expression is lowered to. -/
def valueType : EStateM.Result LoweringError LowerState Value → Checked Ty
  | .ok v _ => .ok v.ty
  | .error e _ => .error e

theorem Conforms.outcome_eq {action : Lower Unit} {verdict : Checked Context}
    (conforms : Conforms action s verdict InContext) : outcome (action s) = verdict := by
  obtain ⟨_, s', Γ, run, checked, same⟩ | ⟨e, s', run, checked⟩ := conforms.cases
  · rw [run, checked, outcome, same]
  · rw [run, checked, outcome]

theorem Conforms.valueType_eq {action : Lower Value} {verdict : Checked Ty}
    (conforms : Conforms action s verdict (HasType s)) : valueType (action s) = verdict := by
  obtain ⟨v, s', ty, run, checked, typed⟩ | ⟨e, s', run, checked⟩ := conforms.cases
  · rw [run, checked, valueType, typed.1]
  · rw [run, checked, valueType]

theorem program_conforms (moduleName : String) (statements : List Stmt) :
    Conforms (program statements) ⟨.start moduleName, .start⟩ (checkProgram statements)
      InContext := by
  obtain ⟨id, c, ready⟩ := ready_entry moduleName
  rw [Conforms, program_eq]
  apply (stmts_follows statements (entry moduleName) id c ready).followed
  intro _ s Γ run same
  obtain ⟨c', step⟩ := (stmts_lowers statements _ id c ready).ok run
  refine ⟨(), _, returnZero_eq step.ready.here, ?_⟩
  have ends := Grows.close step.ready (.ret (some (.i32 0))) (fun bad => bad rfl)
    (Value.Usable.constInt rfl)
  exact (LowerState.context_put step.ready.here (ends.func step.ready)).trans same

end Lower

/-! ## The walk of the check -/

/-- A part of a program, and the context that it is checked in. -/
structure Typing.Place where
  node : Lower.Node
  context : Context

/-- The check of a call with `count` arguments gets past those in `before`. -/
def Typing.ArgumentsBefore (callee : Token) (count : Nat) (before : List Expr) (Γ : Context) : Prop :=
  ∃ f, Γ.function? callee.text = some f ∧ f.params.length = count ∧
    checkArguments Γ callee.text 0 before (f.params.take before.length) = .ok ()

/-- The check comes from one place to the other next. -/
inductive Typing.Part : Typing.Place → Typing.Place → Prop where
  | left {l op r Γ} : Part ⟨.expr (.binary l op r), Γ⟩ ⟨.expr l, Γ⟩
  | right {l op r Γ ty} (typed : exprType Γ l = .ok ty) :
      Part ⟨.expr (.binary l op r), Γ⟩ ⟨.expr r, Γ⟩
  | operand {op e Γ} : Part ⟨.expr (.unary op e), Γ⟩ ⟨.expr e, Γ⟩
  | assigned {target e Γ} : Part ⟨.expr (.assign target e), Γ⟩ ⟨.expr e, Γ⟩
  | inner {e Γ} : Part ⟨.expr (.group e), Γ⟩ ⟨.expr e, Γ⟩
  | argument {callee before e after Γ}
      (passed : ArgumentsBefore callee (before ++ e :: after).length before Γ) :
      Part ⟨.expr (.call callee (before ++ e :: after)), Γ⟩ ⟨.expr e, Γ⟩
  | effectArgument {callee before e after Γ}
      (passed : ArgumentsBefore callee (before ++ e :: after).length before Γ) :
      Part ⟨.stmt (.expression (.call callee (before ++ e :: after))), Γ⟩ ⟨.expr e, Γ⟩
  | effect {e Γ} (value : ∀ callee arguments, e ≠ .call callee arguments) :
      Part ⟨.stmt (.expression e), Γ⟩ ⟨.expr e, Γ⟩
  | printed {e Γ} : Part ⟨.stmt (.print e), Γ⟩ ⟨.expr e, Γ⟩
  | initial {var e Γ} : Part ⟨.stmt (.declare var (some e)), Γ⟩ ⟨.expr e, Γ⟩
  | returned {keyword e Γ} : Part ⟨.stmt (.ret keyword (some e)), Γ⟩ ⟨.expr e, Γ⟩
  | block {body Γ} : Part ⟨.stmt (.block body), Γ⟩ ⟨.stmts body, Γ.enter .block⟩
  | ifTest {test yes no Γ} : Part ⟨.stmt (.ifElse test yes no), Γ⟩ ⟨.expr test, Γ⟩
  | ifYes {test yes no Γ} (tested : checkCondition Γ test = .ok ()) :
      Part ⟨.stmt (.ifElse test yes no), Γ⟩ ⟨.stmt yes, Γ⟩
  | ifNo {test yes no Γ Γ'} (tested : checkCondition Γ test = .ok ())
      (done : checkStmt yes Γ = .ok Γ') :
      Part ⟨.stmt (.ifElse test yes (some no)), Γ⟩ ⟨.stmt no, Γ'⟩
  | whileTest {test body Γ} : Part ⟨.stmt (.whileLoop test body), Γ⟩ ⟨.expr test, Γ⟩
  | whileBody {test body Γ} (tested : checkCondition Γ test = .ok ()) :
      Part ⟨.stmt (.whileLoop test body), Γ⟩ ⟨.stmt body, Γ⟩
  | desugared {initial test step body Γ} :
      Part ⟨.stmt (.forLoop initial test step body), Γ⟩
        ⟨.stmt (Stmt.desugarFor initial test step body), Γ⟩
  | body {name params body Γ} (absent : Γ.function? name.text = none) :
      Part ⟨.stmt (.function name params body), Γ⟩
        ⟨.stmts body, params.foldl (fun Γ p => Γ.declare p.text .i32)
          ((Γ.addFunction ⟨name.text, params.map fun _ => .i32, .i32, false⟩).enter .function)⟩
  | head {st ss Γ} : Part ⟨.stmts (st :: ss), Γ⟩ ⟨.stmt st, Γ⟩
  | tail {st ss Γ Γ'} (done : checkStmt st Γ = .ok Γ') : Part ⟨.stmts (st :: ss), Γ⟩ ⟨.stmts ss, Γ'⟩

namespace Lower

/-- The place of the check that belongs to a place of lowering. -/
def Place.typed (p : Place) : Typing.Place :=
  ⟨p.node, p.state.context⟩

theorem Conforms.of_ok {α β : Type} {action : Lower α} {s s' : LowerState} {verdict : Checked β}
    {Q : α → LowerState → β → Prop} (conforms : Conforms action s verdict Q) {a : α}
    (run : action s = .ok a s') : ∃ b, verdict = .ok b ∧ Q a s' b := by
  rw [Conforms, run] at conforms
  exact conforms

theorem ArgumentsBefore.typed {callee : Token} {count : Nat} {before : List Expr} {s s' : LowerState}
    {id : Nat} {c : Cursor} (run : ArgumentsBefore callee count before s s') (ready : s.Ready id c) :
    Typing.ArgumentsBefore callee count before s.context ∧ s'.context = s.context := by
  obtain ⟨k, g, values, found, function, fits, lowered⟩ := run
  obtain ⟨_, passed, same⟩ := (args_conforms callee.text 0 before _ ready).of_ok lowered
  exact ⟨⟨g.signature, LowerState.function?_of_found found function, fits, passed⟩, same⟩

/-- Lowering comes from one place to another as the check does. -/
theorem Part.typed {p q : Place} (part : Part p q) {id : Nat} {c : Cursor}
    (ready : p.state.Ready id c) : Typing.Part p.typed q.typed := by
  cases part with
  | left => exact .left
  | operand => exact .operand
  | assigned => exact .assigned
  | inner => exact .inner
  | effect value => exact .effect value
  | printed => exact .printed
  | initial => exact .initial
  | returned => exact .returned
  | ifTest => exact .ifTest
  | desugared => exact .desugared
  | head => exact .head
  | block => exact .block
  | right run =>
    obtain ⟨ty, checked, _, same⟩ := (expr_conforms _ ready).of_ok run
    rw [Place.typed, Place.typed, same]
    exact .right checked
  | argument run =>
    obtain ⟨passed, same⟩ := run.typed ready
    rw [Place.typed, Place.typed, same]
    exact .argument passed
  | effectArgument run =>
    obtain ⟨passed, same⟩ := run.typed ready
    rw [Place.typed, Place.typed, same]
    exact .effectArgument passed
  | ifYes tested there =>
    obtain ⟨c₁, step, usable, typed⟩ := (condition_lowersTo _ _ id c ready).ok tested
    obtain ⟨rfl, rfl⟩ := cursor_of_ready step.ready there
    obtain ⟨_, checked, same⟩ := (condition_conforms _ ready).of_ok tested
    have opened := Grows.atThen step.ready usable typed
    have same' := (LowerState.context_put there (opened.func step.ready)).trans same
    rw [Place.typed, Place.typed, same']
    exact .ifYes checked
  | ifNo tested there done behind =>
    obtain ⟨c₁, step, usable, typed⟩ := (condition_lowersTo _ _ id c ready).ok tested
    obtain ⟨rfl, rfl⟩ := cursor_of_ready step.ready there
    obtain ⟨_, checked, same⟩ := (condition_conforms _ ready).of_ok tested
    have opened := Grows.atThen step.ready usable typed
    have same' := (LowerState.context_put there (opened.func step.ready)).trans same
    obtain ⟨c₂, first⟩ := (stmt_lowers _ _ _ _ opened.ready).ok done
    obtain ⟨_, rfl⟩ := cursor_of_ready first.ready behind
    obtain ⟨Γ, checked', same₂⟩ := (stmt_follows _ _ _ _ opened.ready).of_ok done
    have between := grows_atElse step.ready opened first
    have same₃ := (LowerState.context_put behind (between.func first.ready)).trans same₂
    rw [same'] at checked'
    rw [Place.typed, Place.typed, same₃]
    exact .ifNo checked checked'
  | whileTest there =>
    obtain ⟨rfl, rfl⟩ := cursor_of_ready ready there
    have opened := Grows.atCondition ready
    rw [Place.typed, Place.typed, LowerState.context_put there (opened.func ready)]
    exact .whileTest
  | whileBody there tested behind =>
    obtain ⟨rfl, rfl⟩ := cursor_of_ready ready there
    have opened := Grows.atCondition ready
    have same := LowerState.context_put there (opened.func ready)
    obtain ⟨c₁, step, usable, typed⟩ := (condition_lowersTo _ _ _ _ opened.ready).ok tested
    obtain ⟨_, rfl⟩ := cursor_of_ready step.ready behind
    obtain ⟨_, checked, same₁⟩ := (condition_conforms _ opened.ready).of_ok tested
    have forked := grows_atBody ready step usable typed
    have same₂ := (LowerState.context_put behind (forked.func step.ready)).trans (same₁.trans same)
    rw [same] at checked
    rw [Place.typed, Place.typed, same₂]
    exact .whileBody checked
  | @body name params _ s _ absent stored =>
    have entered := Ready.enter s.emitter (s.scopes.push .function) ready.sound params absent
      s.scopes.lookup_push_function
    have numbers := numbersFrom_declared name.text params
    obtain ⟨Γ, checked, same⟩ := (storeParams_conforms 0 params entered numbers).of_ok stored
    rw [context_enter] at checked
    rw [Place.typed, Place.typed, show _ = Γ from same, ← Except.ok.inj checked]
    exact .body (LowerState.function?_of_absent absent)
  | tail run =>
    obtain ⟨Γ, checked, same⟩ := (stmt_follows _ _ _ _ ready).of_ok run
    rw [Place.typed, Place.typed, show _ = Γ from same]
    exact .tail checked

theorem parts_typed {p q : Place} (parts : Relation.ReflTransGen Part p q) {id : Nat} {c : Cursor}
    (ready : p.state.Ready id c) : Relation.ReflTransGen Typing.Part p.typed q.typed := by
  induction parts with
  | refl => exact .refl
  | tail before part ih =>
    obtain ⟨_, _, there⟩ := ready_of_parts before ready
    exact ih.tail (part.typed there)

end Lower

/-- Lowering a program succeeds exactly if the program passes the check, and otherwise fails with
    the error that the check finds.  Every expression that is lowered on the way is checked in the
    context that belongs to the state, and its value has the type that the check gives it. -/
theorem lowerProgram_follows_check (moduleName : String) (statements : List Stmt) :
    Lower.outcome (Lower.program statements ⟨.start moduleName, .start⟩) =
      checkProgram statements ∧
    (∀ e, (∀ problem, e ≠ .malformed problem) →
      (lowerProgram moduleName statements = .error e ↔ checkProgram statements = .error e)) ∧
    ∀ e s, Relation.ReflTransGen Lower.Part ⟨.stmts statements, Lower.entry moduleName⟩ ⟨.expr e, s⟩ →
      Relation.ReflTransGen Typing.Part ⟨.stmts statements, .start⟩ ⟨.expr e, s.context⟩ ∧
        Lower.valueType (Lower.expr e s) = exprType s.context e := by
  have conforms := Lower.program_conforms moduleName statements
  refine ⟨conforms.outcome_eq, ?_, ?_⟩
  · intro e inProgram
    obtain ⟨_, s, Γ, run, checked, _⟩ | ⟨e', s, run, checked⟩ := conforms.cases
    · rw [lowerProgram, run, checked]
      constructor
      · intro failed
        dsimp only at failed
        split at failed
        · exact absurd (Except.error.inj failed).symm (inProgram _)
        · cases failed
      · intro failed
        cases failed
    · rw [lowerProgram, run, checked]
      simp
  · intro e s reached
    obtain ⟨_, _, ready⟩ := Lower.ready_entry moduleName
    obtain ⟨id, c, there⟩ := Lower.ready_of_parts reached ready
    exact ⟨Lower.parts_typed reached ready, (Lower.expr_conforms e there).valueType_eq⟩

/-- The slot of a truth value has the type of its value, and reading it gives a number; a name that
    is not in scope is the error of the check. -/
theorem lowerProgram_follows_check_slot :
    let token := fun kind text => (⟨kind, text, ⟨1, 1⟩⟩ : Token)
    let flag := token .identifier "flag"
    let initial : Stmt := .declare flag (some (.literal (token .boolLiteral "true")))
    let statements : List Stmt := [initial, .print (.name flag)]
    let unbound : LoweringError := .undefinedVariable "other" ⟨1, 1⟩
    lowerProgram "m" [initial, .print (.name (token .identifier "other"))] = .error unbound ∧
    ∃ s, Relation.ReflTransGen Lower.Part ⟨.stmts statements, Lower.entry "m"⟩ ⟨.expr (.name flag), s⟩ ∧
      s.context.variableType flag = .ok .i1 ∧ Lower.valueType (Lower.expr (.name flag) s) = .ok .i32 := by
  intro token flag initial statements unbound
  constructor
  · refine ((lowerProgram_follows_check "m" _).2.1 unbound (fun _ => nofun)).mpr ?_
    rfl
  obtain ⟨s, run, slot, read⟩ : ∃ s, Lower.stmt initial (Lower.entry "m") = .ok () s ∧
      s.context.variableType flag = .ok .i1 ∧ exprType s.context (.name flag) = .ok .i32 :=
    ⟨_, rfl, rfl, rfl⟩
  have reached : Relation.ReflTransGen Lower.Part ⟨.stmts statements, Lower.entry "m"⟩
      ⟨.expr (.name flag), s⟩ :=
    ((Relation.ReflTransGen.refl.tail (.tail run)).tail .head).tail .printed
  exact ⟨s, reached, slot, ((lowerProgram_follows_check "m" statements).2.2 _ s reached).2.trans read⟩

end ImpCompiler
