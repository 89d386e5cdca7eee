import ImpCompiler.Proofs.Ssa.Checked

/-! # Modules without names

Parameters, locals and blocks have names for the sake of a reader; within a module they are
referred to by numbers.  `Module.nameless` is what is left of a module without these names.

The emitter looks at no name.  Actions that differ in the names they ask for, run from emitters
whose modules differ in names, have the same results and errors and again leave modules that
differ in names only.  The check names blocks in its messages.  In a sound module that is
written to its end it names nothing else, since all it can find there is a bad return
(`Module.Sound.check_eq`). -/

namespace ImpCompiler.Ssa

/-! ## Two runs side by side -/

section RunsAlike

variable {ε σ α β : Type}

/-- The results of two runs correspond: values by `Q`, errors by `E`, and states by `R`. -/
inductive ResultsAlike (R : σ → σ → Prop) (E : ε → ε → Prop) (Q : α → α → Prop) :
    EStateM.Result ε σ α → EStateM.Result ε σ α → Prop where
  | ok {a b : α} {s t : σ} : Q a b → R s t → ResultsAlike R E Q (.ok a s) (.ok b t)
  | error {e d : ε} {s t : σ} : E e d → R s t → ResultsAlike R E Q (.error e s) (.error d t)

/-- From corresponding states, two actions have corresponding results. -/
def RunsAlike (R : σ → σ → Prop) (E : ε → ε → Prop) (Q : α → α → Prop) (x y : EStateM ε σ α) : Prop :=
  ∀ s t, R s t → ResultsAlike R E Q (x s) (y t)

namespace RunsAlike

variable {R : σ → σ → Prop} {E : ε → ε → Prop} {Q : α → α → Prop} {P : β → β → Prop}

theorem pure {a b : α} (related : Q a b) : RunsAlike R E Q (Pure.pure a) (Pure.pure b) :=
  fun _ _ states => .ok related states

theorem throw {e d : ε} (related : E e d) :
    RunsAlike R E Q (MonadExcept.throw e) (MonadExcept.throw d) :=
  fun _ _ states => .error related states

theorem get : RunsAlike R E R MonadState.get MonadState.get :=
  fun _ _ states => .ok states states

theorem bind {x y : EStateM ε σ α} {f g : α → EStateM ε σ β} (first : RunsAlike R E Q x y)
    (rest : ∀ a b, Q a b → RunsAlike R E P (f a) (g b)) : RunsAlike R E P (x >>= f) (y >>= g) := by
  intro s t states
  have results := first s t states
  simp only [Bind.bind, EStateM.bind]
  generalize x s = result, y t = result' at results
  cases results with
  | ok values states => exact rest _ _ values _ _ states
  | error errors states => exact .error errors states

/-- The first actions have the same value. -/
theorem step {x y : EStateM ε σ α} {f g : α → EStateM ε σ β} (first : RunsAlike R E Eq x y)
    (rest : ∀ a, RunsAlike R E P (f a) (g a)) : RunsAlike R E P (x >>= f) (y >>= g) := by
  apply first.bind
  rintro a _ rfl
  exact rest a

end RunsAlike

end RunsAlike

/-! ## Leaving out names -/

/-- The block without its label. -/
def Block.nameless (b : Block) : Block := { b with label := "" }

/-- The parameter without its name. -/
def Param.nameless (p : Param) : Param := { p with name := "" }

/-- The local without its name. -/
def Local.nameless (l : Local) : Local := { l with name := "" }

/-- The function with its own name only. -/
def Func.nameless (f : Func) : Func where
  name := f.name
  params := f.params.map Param.nameless
  returnType := f.returnType
  blocks := f.blocks.map Block.nameless
  locals := f.locals.map Local.nameless
  names := .empty

/-- The module with the names of its functions and constants only. -/
def Module.nameless (m : Module) : Module :=
  { m with functions := m.functions.map Func.nameless }

/-- The emitter with names of functions and constants only. -/
def Emitter.nameless (e : Emitter) : Emitter :=
  { e with module := e.module.nameless }

/-- Entries of two tables that look the same are both absent, or both present. -/
theorem map_eq_map_cases {α β : Type} {view : α → β} {x y : Option α}
    (same : x.map view = y.map view) :
    (x = none ∧ y = none) ∨ ∃ a b, x = some a ∧ y = some b ∧ view a = view b := by
  cases x <;> cases y
  · exact .inl ⟨rfl, rfl⟩
  · cases same
  · cases same
  · exact .inr ⟨_, _, rfl, rfl, Option.some.inj same⟩

/-- A change of an element that does not depend on what `view` leaves out. -/
theorem map_modify {α β : Type} {view : α → β} {change : α → α} {change' : β → β}
    (commutes : ∀ a, view (change a) = change' (view a)) (xs : Array α) (i : Nat) :
    (xs.modify i change).map view = (xs.map view).modify i change' := by
  apply Array.ext_getElem?
  intro k
  rw [Array.getElem?_map, Array.getElem?_modify, Array.getElem?_modify, Array.getElem?_map]
  split
  · simp [Option.map_map, Function.comp_def, commutes]
  · rfl

namespace Func

section

variable {f g : Func} (same : f.nameless = g.nameless)

include same

theorem name_eq_of_nameless : f.name = g.name :=
  (congrArg Func.name same :)

theorem returnType_eq_of_nameless : f.returnType = g.returnType :=
  (congrArg Func.returnType same :)

theorem paramTypes_eq_of_nameless : f.paramTypes = g.paramTypes := by
  have types := congrArg paramTypes same
  simpa [paramTypes, nameless, Function.comp_def, Param.nameless] using types

theorem size_blocks_eq_of_nameless : f.blocks.size = g.blocks.size := by
  have sizes := congrArg (fun f => f.blocks.size) same
  simpa [nameless] using sizes

theorem size_locals_eq_of_nameless : f.locals.size = g.locals.size := by
  have sizes := congrArg (fun f => f.locals.size) same
  simpa [nameless] using sizes

theorem isDeclaration_eq_of_nameless : f.isDeclaration = g.isDeclaration := by
  rw [isDeclaration, isDeclaration, Array.isEmpty, Array.isEmpty, size_blocks_eq_of_nameless same]

theorem paramType_eq_of_nameless (index : Nat) :
    f.params[index]?.map Param.ty = g.params[index]?.map Param.ty := by
  have params := congrArg (fun f => f.params[index]?.map Param.ty) same
  simp only [nameless, Array.getElem?_map, Option.map_map] at params
  exact params

/-- Corresponding blocks have ended both, or neither has. -/
theorem isTerminated_eq_of_nameless (b : Nat) :
    f.blocks[b]?.map Block.isTerminated = g.blocks[b]?.map Block.isTerminated := by
  have blocks := congrArg (fun f => f.blocks[b]?.map Block.isTerminated) same
  simp only [nameless, Array.getElem?_map, Option.map_map] at blocks
  exact blocks

end

theorem nameless_addBlock (f : Func) (label : String) :
    (f.addBlock label).nameless = { f.nameless with blocks := f.nameless.blocks.push (.empty "") } := by
  simp [nameless, addBlock, Block.nameless, Block.empty]

theorem nameless_addLocal (f : Func) (name : String) (ty : Ty) :
    (f.addLocal name ty).nameless = { f.nameless with locals := f.nameless.locals.push ⟨"", ty⟩ } := by
  simp [nameless, addLocal, Local.nameless]

theorem nameless_pushInstr (f : Func) (block : Nat) (i : Instr) :
    (f.pushInstr block i).nameless = f.nameless.pushInstr block i := by
  simp only [nameless, pushInstr, Func.mk.injEq, true_and, and_true]
  apply map_modify
  exact fun _ => rfl

theorem nameless_insertSlot (f : Func) (i : Instr) :
    (f.insertSlot i).nameless = f.nameless.insertSlot i := by
  simp only [nameless, insertSlot, Func.mk.injEq, true_and, and_true]
  apply map_modify
  exact fun _ => rfl

theorem nameless_terminate (f : Func) (block : Nat) (t : Terminator) :
    (f.terminate block t).nameless = f.nameless.terminate block t := by
  simp only [nameless, terminate, Func.mk.injEq, true_and, and_true]
  apply map_modify
  exact fun _ => rfl

/-- Without names, parameters are their types. -/
theorem params_nameless (f : Func) : f.nameless.params = (f.paramTypes.map (Param.mk "")).toArray := by
  apply Array.toList_inj.mp
  simp [nameless, paramTypes, Function.comp_def, Param.nameless]

theorem nameless_declare (name : String) {params params' : List Param}
    (types : params.map Param.ty = params'.map Param.ty) (returnType : Ty) :
    (declare name params returnType).nameless = (declare name params' returnType).nameless := by
  have same : (declare name params returnType).nameless.params =
      (declare name params' returnType).nameless.params := by
    rw [params_nameless, params_nameless, paramTypes_declare, paramTypes_declare, types]
  simp only [nameless, declare, Func.mk.injEq, true_and, and_true] at same ⊢
  exact same

end Func

namespace Module

theorem functions_nameless (m : Module) (id : Nat) :
    m.nameless.functions[id]? = m.functions[id]?.map Func.nameless := by
  simp [nameless]

theorem nameless_addFunction (m : Module) (f : Func) :
    (m.addFunction f).nameless = m.nameless.addFunction f.nameless := by
  simp [nameless, addFunction]

theorem nameless_addGlobal (m : Module) (bytes : List UInt8) :
    (m.addGlobal bytes).nameless = m.nameless.addGlobal bytes := rfl

/-- Functions are found by their names, which stay. -/
theorem findFunction?_nameless (m : Module) (name : String) :
    m.nameless.findFunction? name = m.findFunction? name := by
  simp [nameless, findFunction?, Array.findIdx?_map, Function.comp_def, Func.nameless]

theorem nameless_modifyFunction {m n : Module} (same : m.nameless = n.nameless) (id : Nat)
    {change change' : Func → Func}
    (alike : ∀ f g : Func, f.nameless = g.nameless → (change f).nameless = (change' g).nameless) :
    (m.modifyFunction id change).nameless = (n.modifyFunction id change').nameless := by
  have functions (k : Nat) :
      m.functions[k]?.map Func.nameless = n.functions[k]?.map Func.nameless := by
    rw [← functions_nameless, same, functions_nameless]
  have changed : (m.modifyFunction id change).functions.map Func.nameless =
      (n.modifyFunction id change').functions.map Func.nameless := by
    apply Array.ext_getElem?
    intro k
    rw [Array.getElem?_map, Array.getElem?_map, modifyFunction, modifyFunction,
      Array.getElem?_modify, Array.getElem?_modify]
    -- only the function with the number `id` changes, if there is one
    split
    · rcases map_eq_map_cases (functions k) with ⟨left, right⟩ | ⟨f, g, left, right, here⟩
      · rw [left, right]
        rfl
      · rw [left, right]
        exact congrArg some (alike f g here)
    · exact functions k
  have name : m.name = n.name := (congrArg Module.name same :)
  have globals : m.globals = n.globals := (congrArg Module.globals same :)
  simp only [nameless, modifyFunction] at changed ⊢
  rw [changed, name, globals]

end Module

/-! ## The emitter looks at no name -/

namespace Emitter

variable {α : Type}

/-- Actions that do the same, up to names. -/
abbrev Alike (Q : α → α → Prop) (x y : Emit α) : Prop :=
  RunsAlike (fun e e' : Emitter => e.nameless = e'.nameless) Eq Q x y

theorem module_nameless {e e' : Emitter} (same : e.nameless = e'.nameless) :
    e.module.nameless = e'.module.nameless :=
  congrArg Emitter.module same

theorem point_nameless {e e' : Emitter} (same : e.nameless = e'.nameless) : e.point = e'.point :=
  (congrArg Emitter.point same :)

theorem nameless_mk {m n : Module} (same : m.nameless = n.nameless) (point : Option InsertPoint) :
    (⟨m, point⟩ : Emitter).nameless = (⟨n, point⟩ : Emitter).nameless :=
  congrArg (Emitter.mk · point) same

theorem findFunction_alike (name : String) : Alike Eq (findFunction name) (findFunction name) := by
  intro e e' same
  have found : e.module.findFunction? name = e'.module.findFunction? name := by
    rw [← Module.findFunction?_nameless, module_nameless same, Module.findFunction?_nameless]
  exact .ok found same

theorem addFunction_alike (name : String) {params params' : List Param}
    (types : params.map Param.ty = params'.map Param.ty) (returnType : Ty) :
    Alike Eq (addFunction name params returnType) (addFunction name params' returnType) := by
  intro e e' same
  have size : e.module.functions.size = e'.module.functions.size := by
    have sizes := congrArg (fun m => m.functions.size) (module_nameless same)
    simpa [Module.nameless] using sizes
  -- the number of the new function is the number of those before it
  refine .ok size ?_
  rw [point_nameless same]
  apply nameless_mk
  rw [Module.nameless_addFunction, Module.nameless_addFunction, module_nameless same,
    Func.nameless_declare name types]

theorem function_alike (id : Nat) :
    Alike (fun f g => f.nameless = g.nameless) (function id) (function id) := by
  intro e e' same
  have found : e.module.functions[id]?.map Func.nameless =
      e'.module.functions[id]?.map Func.nameless := by
    rw [← Module.functions_nameless, module_nameless same, Module.functions_nameless]
  rcases map_eq_map_cases found with ⟨left, right⟩ | ⟨f, g, left, right, here⟩
  · simp only [function, left, right]
    exact .error rfl same
  · simp only [function, left, right]
    exact .ok here same

theorem modifyFunction_alike (id : Nat) {change change' : Func → Func}
    (alike : ∀ f g : Func, f.nameless = g.nameless → (change f).nameless = (change' g).nameless) :
    Alike Eq (modifyFunction id change) (modifyFunction id change') := by
  intro e e' same
  refine .ok rfl ?_
  rw [point_nameless same]
  exact nameless_mk (Module.nameless_modifyFunction (module_nameless same) id alike) _

theorem appendBlock_alike (id : Nat) (label label' : String) :
    Alike Eq (appendBlock id label) (appendBlock id label') := by
  apply (function_alike id).bind
  intro f g same
  have size := Func.size_blocks_eq_of_nameless same
  refine (modifyFunction_alike id fun f g same => ?_).step fun _ => .pure size
  rw [Func.nameless_addBlock, Func.nameless_addBlock, same]

theorem setPoint_alike (point : Option InsertPoint) : Alike Eq (setPoint point) (setPoint point) :=
  fun _ _ same => .ok rfl (nameless_mk (module_nameless same) point)

theorem moveTo_alike (id block : Nat) : Alike Eq (moveTo id block) (moveTo id block) :=
  setPoint_alike _

theorem currentPoint_alike : Alike Eq currentPoint currentPoint := by
  intro e e' same
  simp only [currentPoint, ← point_nameless same]
  cases e.point with
  | none => exact .error rfl same
  | some point => exact .ok rfl same

theorem currentFunction_alike : Alike Eq currentFunction currentFunction :=
  currentPoint_alike.step fun _ => .pure rfl

theorem isTerminated_alike : Alike Eq isTerminated isTerminated := by
  refine currentPoint_alike.step fun point => ?_
  apply (function_alike point.function).bind
  intro f g same
  apply RunsAlike.pure
  rcases map_eq_map_cases (Func.isTerminated_eq_of_nameless same point.block) with
    ⟨left, right⟩ | ⟨b, c, left, right, ended⟩
  · rw [left, right]
  · rw [left, right]
    exact ended

theorem param_alike (index : Nat) : Alike Eq (param index) (param index) := by
  refine currentFunction_alike.step fun id => ?_
  apply (function_alike id).bind
  intro f g same
  rcases map_eq_map_cases (Func.paramType_eq_of_nameless same index) with
    ⟨left, right⟩ | ⟨p, q, left, right, ty⟩
  · simp only [left, right, Func.name_eq_of_nameless same]
    exact .throw rfl
  · simp only [left, right, ty]
    exact .pure rfl

theorem globalString_alike (text : String) : Alike Eq (globalString text) (globalString text) := by
  intro e e' same
  have globals : e.module.globals = e'.module.globals :=
    (congrArg Module.globals (module_nameless same) :)
  refine .ok (congrArg (fun globals => Value.global globals.size) globals) ?_
  rw [point_nameless same]
  apply nameless_mk
  rw [Module.nameless_addGlobal, Module.nameless_addGlobal, module_nameless same]

theorem openBlock_alike : Alike Eq openBlock openBlock := by
  refine currentPoint_alike.step fun point => ?_
  apply (function_alike point.function).bind
  intro f g same
  rcases map_eq_map_cases (Func.isTerminated_eq_of_nameless same point.block) with
    ⟨left, right⟩ | ⟨b, c, left, right, ended⟩
  · simp only [left, right]
    exact .throw rfl
  · simp only [left, right, ended]
    -- behind a terminator, both go to a new block
    split
    · refine (appendBlock_alike _ _ _).step fun dead => ?_
      exact (moveTo_alike _ dead).step fun _ => .pure rfl
    · exact .pure rfl

theorem push_alike (i : Instr) : Alike Eq (push i) (push i) := by
  refine openBlock_alike.step fun point => modifyFunction_alike _ fun f g same => ?_
  rw [Func.nameless_pushInstr, Func.nameless_pushInstr, same]

theorem pushResult_alike (ty : Ty) (name name' : String) (make : Nat → Instr) :
    Alike Eq (pushResult ty name make) (pushResult ty name' make) := by
  refine openBlock_alike.step fun point => ?_
  apply (function_alike point.function).bind
  intro f g same
  dsimp only
  rw [Func.size_locals_eq_of_nameless same]
  refine (modifyFunction_alike _ fun f g same => ?_).step fun _ => .pure rfl
  rw [Func.nameless_pushInstr, Func.nameless_pushInstr, Func.nameless_addLocal,
    Func.nameless_addLocal, same]

theorem alloca_alike (ty : Ty) (name name' : String) : Alike Eq (alloca ty name) (alloca ty name') := by
  refine currentFunction_alike.step fun id => ?_
  apply (function_alike id).bind
  intro f g same
  dsimp only
  rw [Func.size_locals_eq_of_nameless same, Func.isDeclaration_eq_of_nameless same]
  -- the name is taken whether there is a block for the slot or not
  refine (modifyFunction_alike _ fun f g same => ?_).step fun _ => ?_
  · rw [Func.nameless_addLocal, Func.nameless_addLocal, same]
  · split
    · exact .throw rfl
    · refine (modifyFunction_alike _ fun f g same => ?_).step fun _ => .pure rfl
      rw [Func.nameless_insertSlot, Func.nameless_insertSlot, same]

theorem call_alike (callee : Nat) (args : List Value) (name : String) :
    Alike Eq (call callee args name) (call callee args name) := by
  apply (function_alike callee).bind
  intro f g same
  dsimp only
  rw [Func.returnType_eq_of_nameless same]
  split
  · exact (push_alike _).step fun _ => .pure rfl
  · exact (pushResult_alike _ _ _ _).step fun _ => .pure rfl

theorem terminate_alike (t : Terminator) : Alike Eq (terminate t) (terminate t) := by
  refine openBlock_alike.step fun point => modifyFunction_alike _ fun f g same => ?_
  rw [Func.nameless_terminate, Func.nameless_terminate, same]

end Emitter

/-! ## The check names blocks only -/

/-- What is left to check of a block in a sound function that is written to its end: a block that
    returns gives back a value of the type `ty`. -/
def checkReturn (ty : Ty) (b : Block) : Except Problem Unit :=
  match b.terminator with
  | some (.ret none) => if ty = .void then .ok () else .error (.missingReturnValue ty b.label)
  | some (.ret (some value)) => expectType .returnValue ty b.label value
  | _ => .ok ()

/-- The first bad return of a module. -/
def Module.checkReturns (m : Module) : Except CheckError Unit :=
  m.functions.toList.forM fun f =>
    (f.blocks.toList.forM (checkReturn f.returnType)).mapError (CheckError.mk f.name)

theorem except_ok_seq {ε : Type} {first next : Except ε Unit} (done : first = .ok ()) :
    (do first; next) = next := by
  rw [done]
  rfl

variable {m : Module} {f : Func} {defs : Definitions}

theorem checkTerminator_eq_checkReturn (lists : defs.Lists f) {before : List Instr}
    (inside : ∀ i ∈ before, i ∈ f.instrs) {t : Terminator} (fits : t.Sound m f before)
    {block : Block} (ends : block.terminator = some t) :
    checkTerminator m f defs block.label t = checkReturn f.returnType block := by
  rw [checkTerminator.eq_def, checkReturn, ends, except_ok_seq (checkTargets_eq_ok fits)]
  cases t with
  | ret value =>
    cases value with
    | none => rfl
    | some v => exact except_ok_seq ((checkValue_eq_ok_iff lists).mpr (Value.Usable.valid fits inside))
  | branch target => rfl
  | condBranch condition yes no =>
    obtain ⟨usable, typed, _⟩ := fits
    -- a condition that is sound is a truth value, so there is nothing to find
    exact (except_ok_seq ((checkValue_eq_ok_iff lists).mpr (usable.valid inside))).trans
      (expectType_eq_ok.mpr typed)

theorem checkBlock_eq_checkReturn (sound : f.Sound m) (finished : f.Finished)
    (lists : defs.Lists f) {b : Nat} {block : Block} (found : f.blocks[b]? = some block) :
    checkBlock m f defs block = checkReturn f.returnType block := by
  have member := Array.mem_toList_iff.mpr (Array.mem_of_getElem? found)
  rw [checkBlock, except_ok_seq (checkInstrs_eq_ok sound lists member)]
  cases ends : block.terminator with
  | none =>
    -- every block of a finished function has ended
    have bound := (Array.getElem?_eq_some_iff.mp found).1
    exact absurd ⟨bound, (Func.terminator?_eq found).trans ends⟩ (finished b)
  | some t =>
    have fits := sound.terminators b t ((Func.terminator?_eq found).trans ends)
    refine checkTerminator_eq_checkReturn lists ?_ fits ends
    exact fun i member => Func.mem_instrs.mpr ⟨b, .inr member⟩

theorem forM_congr {ε α : Type} {xs : List α} {step step' : α → Except ε Unit}
    (same : ∀ x ∈ xs, step x = step' x) : xs.forM step = xs.forM step' := by
  induction xs with
  | nil => rfl
  | cons x xs ih =>
    obtain ⟨first, rest⟩ := List.forall_mem_cons.mp same
    change (step x >>= fun _ => xs.forM step) = (step' x >>= fun _ => xs.forM step')
    rw [first, ih rest]

theorem checkFunc_eq_checkReturn (sound : f.Sound m) (finished : f.Finished) :
    checkFunc m f = f.blocks.toList.forM (checkReturn f.returnType) := by
  rw [checkFunc]
  -- a declaration has no blocks to look at
  split
  · rename_i declaration
    have empty : f.blocks = #[] := by simpa [Func.isDeclaration] using declaration
    rw [empty]
    rfl
  · obtain ⟨defs, definitions, lists⟩ := Func.definitions_eq_ok sound.bound sound.nodup
    rw [definitions]
    refine forM_congr fun block member => ?_
    obtain ⟨b, found⟩ := Array.getElem?_of_mem (Array.mem_toList_iff.mp member)
    exact checkBlock_eq_checkReturn sound finished lists found

theorem checkFuncs_eq_forM (seen : List String) (fs : List Func) (names : (fs.map Func.name).Nodup)
    (fresh : ∀ f ∈ fs, f.name ∉ seen) :
    checkFuncs m seen fs = fs.forM fun f => (checkFunc m f).mapError (CheckError.mk f.name) := by
  induction fs generalizing seen with
  | nil => rfl
  | cons f fs ih =>
    obtain ⟨new, names⟩ := List.nodup_cons.mp names
    change _ = ((checkFunc m f).mapError (CheckError.mk f.name) >>= fun _ => fs.forM _)
    rw [checkFuncs, if_neg (fresh f List.mem_cons_self)]
    cases checkFunc m f with
    | error p => rfl
    | ok _ =>
      -- the names of functions differ, so none of the later ones has been seen
      refine ih (f.name :: seen) names fun g member inside => ?_
      rcases List.mem_cons.mp inside with same | old
      · exact new (same ▸ List.mem_map_of_mem member)
      · exact fresh g (List.mem_cons_of_mem _ member) old

/-- In a sound module that is written to its end, the check looks for bad returns. -/
theorem Module.Sound.check_eq (sound : m.Sound)
    (finished : ∀ (id : Nat) (f : Func), m.functions[id]? = some f → f.Finished) :
    m.check = m.checkReturns := by
  rw [Module.check, checkFuncs_eq_forM [] _ sound.names (by simp), Module.checkReturns]
  refine forM_congr fun f member => ?_
  obtain ⟨id, found⟩ := Array.getElem?_of_mem (Array.mem_toList_iff.mp member)
  rw [checkFunc_eq_checkReturn (sound.functions id f found) (finished id f found)]

/-- The problem without the label of the block that it was found in. -/
def Problem.unlabelled : Problem → Problem
  | .functionRedefined => .functionRedefined
  | .unknownResult id => .unknownResult id
  | .valueRedefined name => .valueRedefined name
  | .missingTerminator _ => .missingTerminator ""
  | .constantType ty _ => .constantType ty ""
  | .unknownGlobal id _ => .unknownGlobal id ""
  | .parameterType index _ => .parameterType index ""
  | .unknownParameter index _ => .unknownParameter index ""
  | .undefinedValue name _ => .undefinedValue name ""
  | .valueType name used actual _ => .valueType name used actual ""
  | .unknownValue id _ => .unknownValue id ""
  | .operandType role expected actual _ => .operandType role expected actual ""
  | .voidSlot _ => .voidSlot ""
  | .operatorType op ty _ => .operatorType op ty ""
  | .comparedType ty _ => .comparedType ty ""
  | .extension source target _ => .extension source target ""
  | .unknownCallee id _ => .unknownCallee id ""
  | .argumentCount callee passed expected => .argumentCount callee passed expected
  | .callResult callee ty => .callResult callee ty
  | .unknownTarget id _ => .unknownTarget id ""
  | .missingReturnValue ty _ => .missingReturnValue ty ""

/-- The error without the label of the block that it was found in. -/
def CheckError.unlabelled (e : CheckError) : CheckError :=
  { e with problem := e.problem.unlabelled }

theorem forM_map_mapError {ε δ α : Type} {view : α → α} {relabel : ε → δ}
    {step : α → Except ε Unit} {step' : α → Except δ Unit}
    (commutes : ∀ a, step' (view a) = (step a).mapError relabel) (xs : List α) :
    (xs.map view).forM step' = (xs.forM step).mapError relabel := by
  induction xs with
  | nil => rfl
  | cons x xs ih =>
    change (step' (view x) >>= fun _ => (xs.map view).forM step') =
      (step x >>= fun _ => xs.forM step).mapError relabel
    rw [commutes, ih]
    cases step x <;> rfl

theorem checkReturn_nameless (ty : Ty) (b : Block) :
    checkReturn ty b.nameless = (checkReturn ty b).mapError Problem.unlabelled := by
  simp only [checkReturn, Block.nameless, expectType]
  split
  · split <;> rfl
  · split <;> rfl
  · rfl

/-- Bad returns are found alike, whatever the labels of their blocks. -/
theorem Module.checkReturns_nameless (m : Module) :
    m.nameless.checkReturns = m.checkReturns.mapError CheckError.unlabelled := by
  rw [checkReturns, checkReturns, nameless, Array.toList_map]
  refine forM_map_mapError (fun f => ?_) m.functions.toList
  rw [Func.nameless, Array.toList_map, forM_map_mapError (checkReturn_nameless f.returnType)]
  cases f.blocks.toList.forM (checkReturn f.returnType) <;> rfl

end ImpCompiler.Ssa
