import ImpCompiler.Proofs.Ssa.Growth
import ImpCompiler.Ssa.Check

/-! # Well-formed modules

The check of a module goes through every function twice, keeps a table of what it has found, and ends
with the first problem.  Here all that it asks for is said at once, of a whole function and without
an order of going through it: `Module.WellFormed`.

The modules in which the check finds nothing wrong are exactly the well-formed ones
(`check_eq_ok_iff_wellFormed`).  For each function of the check, one lemma says which of the rules it
decides. -/

namespace ImpCompiler.Ssa

/-! ## The rules -/

/-- A value that can be used in the function `f`: a reference points to something that exists, and has
    its type.  A local may be defined anywhere in the function. -/
inductive Value.Valid (m : Module) (f : Func) : Value → Prop
  | constInt {ty : Ty} {n : Int} (int : ty.isInt = true) : Valid m f (.constInt ty n)
  | constFloat {bits : UInt64} : Valid m f (.constFloat bits)
  | global {id : Nat} (bound : id < m.globals.size) : Valid m f (.global id)
  | param {index : Nat} {p : Param} (found : f.params[index]? = some p) : Valid m f (.param index p.ty)
  | result {id : Nat} {l : Local} (found : f.locals[id]? = some l) (defined : id ∈ f.results) :
      Valid m f (.result id l.ty)

/-- The types of the operands fit the instruction. -/
def Instr.Typed (m : Module) (f : Func) : Instr → Prop
  | .alloca _ ty => ty ≠ .void
  | .load _ _ ptr => ptr.ty = .ptr
  | .store value ptr =>
    ptr.ty = .ptr ∧ ∀ id ty slotType, ptr = .result id ty → .alloca id slotType ∈ f.instrs →
      value.ty = slotType
  | .binary _ op lhs rhs =>
    rhs.ty = lhs.ty ∧ (if op.isFloat then lhs.ty = .f64 else lhs.ty.isInt = true)
  | .icmp _ _ lhs rhs => rhs.ty = lhs.ty ∧ lhs.ty.isInt = true
  | .fcmp _ _ lhs rhs => lhs.ty = .f64 ∧ rhs.ty = .f64
  | .fneg _ operand => operand.ty = .f64
  | .zext _ operand ty => operand.ty.isInt = true ∧ ty.isInt = true
  | .call result callee args =>
    ∃ g, m.functions[callee]? = some g ∧ args.map Value.ty = g.paramTypes ∧
      (result.isSome = true ↔ g.returnType ≠ .void)

/-- The values that a terminator uses. -/
def Terminator.operands : Terminator → List Value
  | .ret value => value.toList
  | .branch _ => []
  | .condBranch condition _ _ => [condition]

/-- Branches lead to blocks of the function, conditions are truth values, and what is returned has the
    type that the function returns. -/
def Terminator.Typed (f : Func) : Terminator → Prop
  | .ret none => f.returnType = .void
  | .ret (some value) => value.ty = f.returnType
  | .branch target => target < f.blocks.size
  | .condBranch condition yes no =>
    condition.ty = .i1 ∧ yes < f.blocks.size ∧ no < f.blocks.size

structure Func.WellFormed (m : Module) (f : Func) : Prop where
  /-- Results have entries in the table of locals. -/
  known : ∀ id ∈ f.results, id < f.locals.size
  /-- No local is defined twice, be it in one block or in two. -/
  once : f.results.Nodup
  instrs : ∀ i ∈ f.instrs, (∀ v ∈ i.operands, v.Valid m f) ∧ i.Typed m f
  blocks : ∀ b ∈ f.blocks, ∃ t, b.terminator = some t ∧ (∀ v ∈ t.operands, v.Valid m f) ∧ t.Typed f

/-- The functions of a module have names of their own, and each that has a body is well formed. -/
structure Module.WellFormed (m : Module) : Prop where
  names : (m.functions.toList.map Func.name).Nodup
  functions : ∀ f ∈ m.functions, 0 < f.blocks.size → f.WellFormed m

/-! ## Traversals that can fail -/

theorem except_bind_eq_ok {ε α β : Type} {first : Except ε α} {next : α → Except ε β} {b : β} :
    (first >>= next) = .ok b ↔ ∃ a, first = .ok a ∧ next a = .ok b := by
  cases first with
  | error e => simp [bind, Except.bind]
  | ok a => simp [bind, Except.bind]

theorem except_seq_eq_ok {ε : Type} {first next : Except ε Unit} :
    (do first; next) = .ok () ↔ first = .ok () ∧ next = .ok () := by
  rw [except_bind_eq_ok]
  exact ⟨fun ⟨_, done, rest⟩ => ⟨done, rest⟩, fun ⟨done, rest⟩ => ⟨(), done, rest⟩⟩

theorem forM_eq_ok {ε α : Type} {xs : List α} {step : α → Except ε Unit} :
    xs.forM step = .ok () ↔ ∀ x ∈ xs, step x = .ok () := by
  induction xs with
  | nil => simp [pure, Except.pure]
  | cons x xs ih =>
    change (step x >>= fun _ => xs.forM step) = .ok () ↔ _
    rw [except_seq_eq_ok, List.forall_mem_cons, ih]

/-! ## Definitions -/

variable {m : Module} {f : Func} {defs defs' : Definitions}

/-- The table holds the definition of every local that the instructions `is` define. -/
def Definitions.Holds (defs : Definitions) (is : List Instr) : Prop :=
  ∀ i ∈ is, ∀ id, i.result? = some id → defs[id]? = some (some i)

theorem Definitions.holds_cons {i : Instr} {is : List Instr} :
    defs.Holds (i :: is) ↔
      (∀ id, i.result? = some id → defs[id]? = some (some i)) ∧ defs.Holds is :=
  List.forall_mem_cons

/-- Instructions that define different locals, none of which has a definition, can all be
    entered. -/
theorem foldlM_enterDefinition (is : List Instr) (defs : Definitions)
    (nodup : (is.filterMap Instr.result?).Nodup)
    (bound : ∀ id ∈ is.filterMap Instr.result?, id < f.locals.size)
    (fresh : ∀ id ∈ is.filterMap Instr.result?, defs[id]? = some none) :
    ∃ defs', is.foldlM (enterDefinition f) defs = .ok defs' ∧ defs'.Holds is ∧
      ∀ id, id ∉ is.filterMap Instr.result? → defs'[id]? = defs[id]? := by
  induction is generalizing defs with
  | nil => exact ⟨defs, rfl, by simp [Definitions.Holds], fun _ _ => rfl⟩
  | cons i is ih =>
    cases defines : i.result? with
    | none =>
      rw [List.filterMap_cons_none defines] at nodup bound fresh
      obtain ⟨defs', run, holds, kept⟩ := ih defs nodup bound fresh
      refine ⟨defs', ?_, ?_, ?_⟩
      · rw [List.foldlM_cons, enterDefinition, defines]
        exact run
      · refine Definitions.holds_cons.mpr ⟨fun id defines' => ?_, holds⟩
        rw [defines] at defines'
        cases defines'
      · rw [List.filterMap_cons_none defines]
        exact kept
    | some id =>
      rw [List.filterMap_cons_some defines] at nodup bound fresh
      obtain ⟨new, nodup⟩ := List.nodup_cons.mp nodup
      have unset := fresh id List.mem_cons_self
      have size : id < defs.size := (Array.getElem?_eq_some_iff.mp unset).1
      have found := Array.getElem?_eq_getElem (bound id List.mem_cons_self)
      obtain ⟨defs', run, holds, kept⟩ := ih (defs.setIfInBounds id (some i)) nodup
        (fun k member => bound k (List.mem_cons_of_mem _ member)) (by
          intro k member
          have other : id ≠ k := fun same => new (same ▸ member)
          rw [Array.getElem?_setIfInBounds_ne other]
          exact fresh k (List.mem_cons_of_mem _ member))
      refine ⟨defs', ?_, ?_, ?_⟩
      · rw [List.foldlM_cons, enterDefinition, defines]
        simp only [found, unset]
        exact run
      · refine Definitions.holds_cons.mpr ⟨fun k defines' => ?_, holds⟩
        have same : id = k := Option.some.inj (defines.symm.trans defines')
        subst same
        -- none of the later instructions changes the entry again
        rw [kept id new, Array.getElem?_setIfInBounds_self_of_lt size]
      · intro k outside
        rw [List.filterMap_cons_some defines, List.mem_cons, not_or] at outside
        rw [kept k outside.2, Array.getElem?_setIfInBounds_ne (Ne.symm outside.1)]

theorem enterDefinition_eq_ok {i : Instr} (entered : enterDefinition f defs i = .ok defs') :
    i.result? = none ∧ defs' = defs ∨
      ∃ id, i.result? = some id ∧ id < f.locals.size ∧ (∀ j, defs[id]? ≠ some (some j)) ∧
        defs' = defs.setIfInBounds id (some i) := by
  rw [enterDefinition] at entered
  cases defines : i.result? with
  | none =>
    rw [defines] at entered
    exact .inl ⟨rfl, (Except.ok.inj entered).symm⟩
  | some id =>
    rw [defines] at entered
    dsimp only at entered
    split at entered
    · cases entered
    · rename_i found
      split at entered
      · cases entered
      · rename_i unset
        exact .inr ⟨id, rfl, (Array.getElem?_eq_some_iff.mp found).1, unset,
          (Except.ok.inj entered).symm⟩

/-- Instructions that can all be entered define different locals, none of which had a definition. -/
theorem fresh_of_foldlM_enterDefinition {is : List Instr} (size : defs.size = f.locals.size)
    (run : is.foldlM (enterDefinition f) defs = .ok defs') :
    (is.filterMap Instr.result?).Nodup ∧
      ∀ id ∈ is.filterMap Instr.result?, id < f.locals.size ∧ defs[id]? = some none := by
  induction is generalizing defs with
  | nil => simp
  | cons i is ih =>
    rw [List.foldlM_cons, except_bind_eq_ok] at run
    obtain ⟨middle, entered, run⟩ := run
    rcases enterDefinition_eq_ok entered with ⟨silent, rfl⟩ | ⟨id, defines, bound, unset, rfl⟩
    · rw [List.filterMap_cons_none silent]
      exact ih size run
    · obtain ⟨nodup, fresh⟩ := ih (by simpa using size) run
      have here : (defs.setIfInBounds id (some i))[id]? = some (some i) :=
        Array.getElem?_setIfInBounds_self_of_lt (size ▸ bound)
      have new : id ∉ is.filterMap Instr.result? := by
        intro member
        rw [(fresh id member).2] at here
        cases here
      rw [List.filterMap_cons_some defines]
      refine ⟨List.nodup_cons.mpr ⟨new, nodup⟩, List.forall_mem_cons.mpr ⟨⟨bound, ?_⟩, ?_⟩⟩
      · have inside : id < defs.size := size ▸ bound
        have entry := Array.getElem?_eq_getElem inside
        cases value : defs[id] with
        | none => rw [entry, value]
        | some j => exact absurd (value ▸ entry) (unset j)
      · intro k member
        have other : id ≠ k := fun same => new (same ▸ member)
        obtain ⟨bound', empty⟩ := fresh k member
        rw [Array.getElem?_setIfInBounds_ne other] at empty
        exact ⟨bound', empty⟩

/-- The table lists what the instructions of the function define, and nothing else. -/
def Definitions.Lists (defs : Definitions) (f : Func) : Prop :=
  ∀ id i, defs[id]? = some (some i) ↔ i ∈ f.instrs ∧ i.result? = some id

theorem Definitions.Lists.holds (lists : defs.Lists f) : defs.Holds f.instrs :=
  fun i member id defines => (lists id i).mpr ⟨member, defines⟩

theorem Func.definitions_eq_ok (known : ∀ id ∈ f.results, id < f.locals.size)
    (once : f.results.Nodup) : ∃ defs, f.definitions = .ok defs ∧ defs.Lists f := by
  have empty : ∀ id < f.locals.size, (Array.replicate f.locals.size (none : Option Instr))[id]? =
      some none := by
    intro id bound
    rw [Array.getElem?_replicate, if_pos bound]
  obtain ⟨defs, run, holds, kept⟩ := foldlM_enterDefinition f.instrs _ once known
    fun id member => empty id (known id member)
  refine ⟨defs, run, fun id i => ⟨fun entry => ?_, fun ⟨member, defines⟩ => holds i member id defines⟩⟩
  by_cases defined : id ∈ f.results
  · obtain ⟨j, member, defines⟩ := Func.mem_results.mp defined
    have same := entry.symm.trans (holds j member id defines)
    exact Option.some.inj (Option.some.inj same) ▸ ⟨member, defines⟩
  · -- where nothing has been entered, the table is as it was at the start
    rw [kept id defined, Array.getElem?_replicate] at entry
    split at entry
    · cases entry
    · cases entry

theorem Func.of_definitions_eq_ok (run : f.definitions = .ok defs) :
    (∀ id ∈ f.results, id < f.locals.size) ∧ f.results.Nodup ∧ defs.Lists f := by
  obtain ⟨once, fresh⟩ := fresh_of_foldlM_enterDefinition (by simp) run
  have known : ∀ id ∈ f.results, id < f.locals.size := fun id member => (fresh id member).1
  obtain ⟨defs', run', lists⟩ := Func.definitions_eq_ok known once
  rw [run] at run'
  exact ⟨known, once, Except.ok.inj run' ▸ lists⟩

/-- No local has two definitions. -/
theorem Func.eq_of_result? (known : ∀ id ∈ f.results, id < f.locals.size) (once : f.results.Nodup)
    {i j : Instr} (first : i ∈ f.instrs) (second : j ∈ f.instrs) {id : Nat}
    (defines : i.result? = some id) (defines' : j.result? = some id) : i = j := by
  obtain ⟨defs, _, lists⟩ := Func.definitions_eq_ok known once
  have entry := (lists id i).mpr ⟨first, defines⟩
  rw [(lists id j).mpr ⟨second, defines'⟩] at entry
  exact (Option.some.inj (Option.some.inj entry)).symm

/-! ## Operands and instructions -/

theorem Ty.isFloat_eq_true_iff {ty : Ty} : ty.isFloat = true ↔ ty = .f64 := by
  cases ty <;> simp [Ty.isFloat]

variable {label : String}

theorem expectType_eq_ok {role : Role} {expected : Ty} {block : String} {v : Value} :
    expectType role expected block v = .ok () ↔ v.ty = expected := by
  rw [expectType]
  split <;> simp_all

theorem checkValue_eq_ok_iff (lists : defs.Lists f) {v : Value} :
    checkValue m f defs label v = .ok () ↔ v.Valid m f := by
  constructor
  · intro accepted
    unfold checkValue at accepted
    split at accepted
    · split at accepted
      · exact .constInt ‹_›
      · cases accepted
    · exact .constFloat
    · split at accepted
      · exact .global (Array.getElem?_eq_some_iff.mp ‹_›).1
      · cases accepted
    · split at accepted
      · split at accepted
        · rename_i found same
          exact same ▸ .param found
        · cases accepted
      · cases accepted
    · split at accepted
      · cases accepted
      · rename_i found
        split at accepted
        · rename_i entry
          split at accepted
          · rename_i same
            have defined := Func.mem_results.mpr ⟨_, (lists _ _).mp entry⟩
            exact same ▸ .result found defined
          · cases accepted
        · cases accepted
  · intro valid
    cases valid with
    | constInt int => simp [checkValue, int]
    | constFloat => rfl
    | global bound => simp [checkValue, bound]
    | param found => simp [checkValue, found]
    | result found defined =>
      obtain ⟨i, defines⟩ := Func.mem_results.mp defined
      simp [checkValue, found, (lists _ i).mpr defines]

theorem slotType?_eq_some_iff (lists : defs.Lists f) {id : Nat} {ty : Ty} :
    slotType? defs id = some ty ↔ .alloca id ty ∈ f.instrs := by
  rw [slotType?]
  constructor
  · intro slot
    split at slot
    · rename_i result ty' entry
      cases slot
      obtain ⟨member, defines⟩ := (lists _ _).mp entry
      exact Option.some.inj defines ▸ member
    · cases slot
  · intro member
    rw [lists.holds _ member id rfl]

/-- Arguments are compared with the parameters one by one. -/
theorem expectTypes_eq_ok_iff {args : List Value} {types : List Ty}
    (length : args.length = types.length) :
    (args.zip types).forM (fun p => expectType .callArgument p.2 label p.1) = .ok () ↔
      args.map Value.ty = types := by
  rw [forM_eq_ok]
  induction args generalizing types with
  | nil =>
    cases types with
    | nil => simp
    | cons ty types => cases length
  | cons arg args ih =>
    cases types with
    | nil => cases length
    | cons ty types =>
      rw [List.zip_cons_cons, List.forall_mem_cons, List.map_cons, List.cons.injEq, expectType_eq_ok,
        ih (Nat.succ.inj length)]

theorem checkCall_eq_ok_iff {result : Option Nat} {callee : Nat} {args : List Value} :
    checkCall m label result callee args = .ok () ↔ (Instr.call result callee args).Typed m f := by
  rw [checkCall, Instr.Typed]
  cases found : m.functions[callee]? with
  | none => simp
  | some g =>
    have size : g.params.size = g.paramTypes.length := by simp [Func.paramTypes]
    simp only [Option.some.injEq, exists_eq_left', size]
    by_cases length : g.paramTypes.length = args.length
    · rw [if_neg (not_not_intro length), except_seq_eq_ok, expectTypes_eq_ok_iff length.symm]
      have agrees : (if result.isSome = decide (g.returnType = .void) then
            (.error (.callResult g.name g.returnType) : Except Problem Unit) else .ok ()) = .ok () ↔
          (result.isSome = true ↔ g.returnType ≠ .void) := by
        cases result <;> by_cases void : g.returnType = .void <;> simp [void]
      rw [agrees]
    · rw [if_pos length]
      have differ : args.map Value.ty ≠ g.paramTypes := by
        intro same
        rw [← same, List.length_map] at length
        exact length rfl
      simp [differ]

theorem checkRule_eq_ok_iff (lists : defs.Lists f) {i : Instr} :
    checkRule m defs label i = .ok () ↔ i.Typed m f := by
  cases i with
  | alloca _ ty => by_cases void : ty = .void <;> simp [checkRule, Instr.Typed, void]
  | load _ _ ptr => exact expectType_eq_ok
  | store value ptr =>
    rw [checkRule.eq_def, Instr.Typed]
    dsimp only
    rw [except_seq_eq_ok, expectType_eq_ok]
    refine and_congr_right fun _ => ?_
    cases ptr with
    | result id ty =>
      dsimp only
      cases made : slotType? defs id with
      | none =>
        refine iff_of_true rfl ?_
        intro id' ty' slotType same member
        cases same
        rw [(slotType?_eq_some_iff lists).mpr member] at made
        cases made
      | some slotType =>
        rw [expectType_eq_ok]
        constructor
        · intro stored id' ty' slotType' same member
          cases same
          have agree := made.symm.trans ((slotType?_eq_some_iff lists).mpr member)
          exact stored.trans (Option.some.inj agree)
        · intro fits
          exact fits id ty slotType rfl ((slotType?_eq_some_iff lists).mp made)
    | _ => simp
  | binary _ op lhs rhs =>
    rw [checkRule, except_seq_eq_ok, expectType_eq_ok, Instr.Typed]
    refine and_congr_right fun _ => ?_
    cases op.isFloat <;> simp [Ty.isFloat_eq_true_iff]
  | icmp _ _ lhs rhs =>
    rw [checkRule, except_seq_eq_ok, expectType_eq_ok, Instr.Typed]
    simp
  | fcmp _ _ lhs rhs =>
    rw [checkRule, except_seq_eq_ok, expectType_eq_ok, expectType_eq_ok, Instr.Typed]
  | fneg _ operand => exact expectType_eq_ok
  | zext _ operand ty => simp [checkRule, Instr.Typed]
  | call result callee args => exact checkCall_eq_ok_iff

theorem checkInstr_eq_ok_iff (lists : defs.Lists f) {i : Instr} :
    checkInstr m f defs label i = .ok () ↔ (∀ v ∈ i.operands, v.Valid m f) ∧ i.Typed m f := by
  simp only [checkInstr, except_seq_eq_ok, forM_eq_ok, checkValue_eq_ok_iff lists,
    checkRule_eq_ok_iff lists]

/-! ## Terminators and blocks -/

theorem checkTarget_eq_ok_iff {target : Nat} :
    checkTarget f label target = .ok () ↔ target < f.blocks.size := by
  by_cases bound : target < f.blocks.size <;> simp [checkTarget, bound]

theorem checkTerminator_eq_ok_iff (lists : defs.Lists f) {t : Terminator} :
    checkTerminator m f defs label t = .ok () ↔ (∀ v ∈ t.operands, v.Valid m f) ∧ t.Typed f := by
  rw [checkTerminator.eq_def, except_seq_eq_ok, forM_eq_ok]
  simp only [checkTarget_eq_ok_iff]
  cases t with
  | ret value =>
    cases value with
    | none => by_cases void : f.returnType = .void <;>
        simp [Terminator.successors, Terminator.operands, Terminator.Typed, void]
    | some v =>
      simp [Terminator.successors, Terminator.operands, Terminator.Typed, except_seq_eq_ok,
        expectType_eq_ok, checkValue_eq_ok_iff lists]
  | branch target => simp [Terminator.successors, Terminator.operands, Terminator.Typed]
  | condBranch condition yes no =>
    simp only [Terminator.successors, Terminator.operands, Terminator.Typed, except_seq_eq_ok,
      expectType_eq_ok, checkValue_eq_ok_iff lists, List.forall_mem_cons]
    simp only [List.not_mem_nil, false_imp_iff, implies_true, and_true]
    constructor
    · rintro ⟨⟨first, second⟩, valid, typed⟩
      exact ⟨valid, typed, first, second⟩
    · rintro ⟨valid, typed, first, second⟩
      exact ⟨⟨first, second⟩, valid, typed⟩

theorem checkBlock_eq_ok_iff (lists : defs.Lists f) {b : Block} :
    checkBlock m f defs b = .ok () ↔
      (∀ i ∈ b.instrs.toList, (∀ v ∈ i.operands, v.Valid m f) ∧ i.Typed m f) ∧
        ∃ t, b.terminator = some t ∧ (∀ v ∈ t.operands, v.Valid m f) ∧ t.Typed f := by
  rw [checkBlock, except_seq_eq_ok, forM_eq_ok]
  simp only [checkInstr_eq_ok_iff lists]
  cases b.terminator with
  | none => simp
  | some t => simp [checkTerminator_eq_ok_iff lists]

/-! ## Functions and modules -/

theorem checkFunc_eq_ok_iff : checkFunc m f = .ok () ↔ (0 < f.blocks.size → f.WellFormed m) := by
  rw [checkFunc]
  by_cases empty : f.blocks.size = 0
  · have declaration : f.isDeclaration = true := by simpa [Func.isDeclaration] using empty
    simp [declaration, empty]
  have body : ¬ f.isDeclaration = true := by simpa [Func.isDeclaration] using empty
  rw [if_neg body, imp_iff_right (Nat.pos_of_ne_zero empty), except_bind_eq_ok]
  constructor
  · rintro ⟨defs, run, checked⟩
    obtain ⟨known, once, lists⟩ := Func.of_definitions_eq_ok run
    simp only [forM_eq_ok, checkBlock_eq_ok_iff lists] at checked
    refine ⟨known, once, fun i member => ?_, fun b member => ?_⟩
    · obtain ⟨b, inside, member⟩ := List.mem_flatMap.mp member
      exact (checked b inside).1 i member
    · exact (checked b (Array.mem_toList_iff.mpr member)).2
  · intro wellFormed
    obtain ⟨defs, run, lists⟩ := Func.definitions_eq_ok wellFormed.known wellFormed.once
    refine ⟨defs, run, ?_⟩
    simp only [forM_eq_ok, checkBlock_eq_ok_iff lists]
    intro b member
    exact ⟨fun i inside => wellFormed.instrs i (List.mem_flatMap.mpr ⟨b, member, inside⟩),
      wellFormed.blocks b (Array.mem_toList_iff.mp member)⟩

/-- The functions `fs` pass if they have names of their own and each of them passes. -/
theorem checkFuncs_eq_ok_iff {seen : List String} {fs : List Func} :
    checkFuncs m seen fs = .ok () ↔
      (fs.map Func.name).Nodup ∧ ∀ f ∈ fs, f.name ∉ seen ∧ checkFunc m f = .ok () := by
  induction fs generalizing seen with
  | nil => simp [checkFuncs]
  | cons f fs ih =>
    rw [checkFuncs, List.map_cons, List.nodup_cons, List.forall_mem_cons]
    by_cases old : f.name ∈ seen
    · simp [old]
    · rw [if_neg old]
      cases checkFunc m f with
      | error p => simp
      | ok _ =>
        simp only [ih, List.mem_cons, not_or, List.mem_map, not_exists, not_and]
        -- the name of this function is seen by the later ones
        exact ⟨fun ⟨nodup, rest⟩ => ⟨⟨fun g member same => (rest g member).1.1 same, nodup⟩, ⟨old, trivial⟩,
            fun g member => ⟨(rest g member).1.2, (rest g member).2⟩⟩,
          fun ⟨⟨new, nodup⟩, _, rest⟩ => ⟨nodup, fun g member =>
            ⟨⟨new g member, (rest g member).1⟩, (rest g member).2⟩⟩⟩

/-- The check finds nothing wrong exactly with the modules that are well formed. -/
theorem check_eq_ok_iff_wellFormed (m : Module) : m.check = .ok () ↔ m.WellFormed := by
  rw [Module.check, checkFuncs_eq_ok_iff]
  simp only [checkFunc_eq_ok_iff, List.not_mem_nil, not_false_eq_true, true_and, Array.mem_toList_iff]
  exact ⟨fun ⟨names, functions⟩ => ⟨names, functions⟩, fun ⟨names, functions⟩ => ⟨names, functions⟩⟩

end ImpCompiler.Ssa
