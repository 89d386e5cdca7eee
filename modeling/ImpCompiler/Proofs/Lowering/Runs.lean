import ImpCompiler.Proofs.Lowering.Soundness

/-! # Runs of lowering, taken apart

A run of lowering a compound statement or a function consists of the runs of its parts, each with
the step that it makes, and of the moves of the cursor between them (`BranchRun`, `LoopRun`,
`BodyRun`).  What is to be shown of the whole follows from what holds of its parts and of these
moves. -/

namespace ImpCompiler

open Ssa

/-- An emitter has one cursor in a function. -/
theorem Ssa.Emitter.At.unique {e : Emitter} {id : Nat} {c c' : Cursor} (here : e.At id c)
    (there : e.At id c') : c' = c := by
  have functions := here.function.symm.trans there.function
  have points := here.point.symm.trans there.point
  cases c
  cases c'
  cases functions
  cases points
  rfl

namespace Lower

variable {bad bad' : Prop} {id : Nat} {s s' : LowerState} {c c' : Cursor}

/-! ## Declarations and returns -/

/-- A declaration makes a slot and stores the first value there. -/
theorem declare_eq_ok (ready : s.Ready id c) {var : Token} {value : Value} (usable : s.CanUse c value)
    (run : declare var value s = .ok () s') :
    ∃ s₁ c₁, c₁ = (c.alloca value.ty var.text).push (.store value (.result c.func.locals.size .ptr)) ∧
      emit (Emitter.store value (.result c.func.locals.size .ptr))
        (s.put id (c.alloca value.ty var.text)) = .ok () s₁ ∧
      ExprStep id (s.put id (c.alloca value.ty var.text)) (c.alloca value.ty var.text) s₁ c₁ ∧
      s' = { s₁ with scopes := s.scopes.define var.text (.result c.func.locals.size .ptr) value.ty } := by
  have step := StmtStep.alloca ready usable.ty_ne_void var.text
  have usable' := canUse_alloca ready usable usable.ty_ne_void var.text
  have made := hasSlot_alloca ready.here.inside value.ty var.text
  have store := push_eq step.ready.here (.store value (.result c.func.locals.size .ptr))
  rw [declare, bind_eq_of_ok (alloca_eq ready.here value.ty var.text)] at run
  have done := (bind_eq_of_ok store).symm.trans run
  cases done
  exact ⟨_, _, rfl, store, .push step.ready rfl ⟨usable', _, rfl, made⟩ trivial, rfl⟩

theorem terminate_eq_ok {t : Terminator} (ready : s.Ready id c)
    (run : emit (Emitter.terminate t) s = .ok () s') : s' = s.put id (c.terminate t) := by
  rw [terminate_eq ready.here] at run
  cases run
  rfl

/-! ## Scopes -/

theorem withBlockScope_eq_ok {body : Lower Unit} (run : withBlockScope body s = .ok () s') :
    ∃ after, body { s with scopes := s.scopes.push .block } = .ok () after ∧
      s' = { after with scopes := after.scopes.pop } :=
  ensuring_eq_ok run

theorem Ready.pushBlock (ready : s.Ready id c) :
    LowerState.Ready { s with scopes := s.scopes.push .block } id c :=
  { ready with visible := fun name binding found => ready.visible name binding (by simpa using found) }

/-! ## Branches -/

/-- The cursor at the second of two branches, from the end of the first one. -/
def atElse (c yes : Cursor) : Cursor :=
  yes.jump (c.func.blocks.size + 2) (c.func.blocks.size + 1)

/-- The cursor behind two branches, from the end of the second one. -/
def atJoin (c no : Cursor) : Cursor :=
  no.jump (c.func.blocks.size + 2) (c.func.blocks.size + 2)

/-- The parts of a run through two branches. -/
structure BranchRun (bad bad' : Prop) (condition : Lower Value) (yes no : Lower Unit) (id : Nat)
    (s : LowerState) (c : Cursor) (v : Value) (s₁ : LowerState) (c₁ : Cursor) (s₂ : LowerState)
    (c₂ : Cursor) (s₃ : LowerState) (c₃ : Cursor) : Prop where
  test : condition s = .ok v s₁
  tested : ExprStep id s c s₁ c₁
  /-- Behind the condition the first branch is opened, … -/
  opened : Grows False id s₁ c₁ (s₁.put id (atThen c₁ v)) (atThen c₁ v)
  yes : yes (s₁.put id (atThen c₁ v)) = .ok () s₂
  first : StmtStep bad id (s₁.put id (atThen c₁ v)) (atThen c₁ v) s₂ c₂
  /-- … behind that the second, … -/
  between : Grows False id s₂ c₂ (s₂.put id (atElse c₁ c₂)) (atElse c₁ c₂)
  no : no (s₂.put id (atElse c₁ c₂)) = .ok () s₃
  second : StmtStep bad' id (s₂.put id (atElse c₁ c₂)) (atElse c₁ c₂) s₃ c₃
  /-- … and both lead to the block behind them. -/
  joined : Grows False id s₃ c₃ (s₃.put id (atJoin c₁ c₃)) (atJoin c₁ c₃)

/-- Behind the first branch, both the second one and the block behind them can be gone to. -/
theorem grows_atElse {s₂ : LowerState} {c₂ : Cursor} {v : Value} (ready : s.Ready id c)
    (opened : Grows False id s c (s.put id (atThen c v)) (atThen c v))
    (first : StmtStep bad id (s.put id (atThen c v)) (atThen c v) s₂ c₂) :
    Grows False id s₂ c₂ (s₂.put id (atElse c c₂)) (atElse c c₂) := by
  have target : ∀ {b}, c.func.blocks.size ≤ b → b < c.func.blocks.size + 3 → c₂.func.Target b :=
    fun new bound => (target_atThen ready v new bound).mono (first.func opened.ready)
  exact Grows.jump first.ready (target (Nat.le_add_right _ 2) (by omega))
    (target (Nat.le_succ _) (by omega)).lt_size

theorem grows_atJoin {s₂ s₃ : LowerState} {c₂ c₃ : Cursor} {v : Value} (ready : s.Ready id c)
    (opened : Grows False id s c (s.put id (atThen c v)) (atThen c v))
    (first : StmtStep bad id (s.put id (atThen c v)) (atThen c v) s₂ c₂)
    (second : StmtStep bad' id (s₂.put id (atElse c c₂)) (atElse c c₂) s₃ c₃) :
    Grows False id s₃ c₃ (s₃.put id (atJoin c c₃)) (atJoin c c₃) := by
  have between := grows_atElse ready opened first
  have later := (first.func opened.ready).trans
    ((between.func first.ready).trans (second.func between.ready))
  have toJoin := (target_atThen ready v (Nat.le_add_right _ 2) (by omega)).mono later
  exact Grows.jump second.ready toJoin toJoin.lt_size

theorem branchRun_of_ifElse {condition : Lower Value} {yes no : Lower Unit}
    (tests : LowersTo .i1 condition) (lowersYes : Lowers bad yes) (lowersNo : Lowers bad' no)
    (ready : s.Ready id c) (run : ifElse condition yes no s = .ok () s') :
    ∃ v s₁ c₁ s₂ c₂ s₃ c₃, s' = s₃.put id (atJoin c₁ c₃) ∧
      BranchRun bad bad' condition yes no id s c v s₁ c₁ s₂ c₂ s₃ c₃ := by
  obtain ⟨v, s₁, test, -⟩ := bind_eq_ok run
  obtain ⟨c₁, tested, usable, typed⟩ := (tests s id c ready).ok test
  have ready₁ := tested.ready
  have opened := Grows.atThen ready₁ usable typed
  rw [ifElse_eq yes no test ready₁.here] at run
  obtain ⟨_, s₂, yesRun, run⟩ := bind_eq_ok run
  obtain ⟨c₂, first⟩ := (lowersYes _ id _ opened.ready).ok yesRun
  have between := grows_atElse ready₁ opened first
  rw [bind_eq_of_ok (jump_eq first.ready.here _ _)] at run
  obtain ⟨_, s₃, noRun, run⟩ := bind_eq_ok run
  obtain ⟨c₃, second⟩ := (lowersNo _ id _ between.ready).ok noRun
  have joined := grows_atJoin ready₁ opened first second
  rw [jump_eq second.ready.here] at run
  cases run
  exact ⟨v, s₁, c₁, s₂, c₂, s₃, c₃, rfl,
    ⟨test, tested, opened, yesRun, first, between, noRun, second, joined⟩⟩

/-! The blocks of the branches are new when control goes on in them. -/

/-- A statement in one block leaves another one as it is. -/
theorem StmtStep.fresh (step : StmtStep bad id s c s' c') (ready : s.Ready id c) {k : Nat}
    (fresh : c.Fresh k) (other : k ≠ c.block) : c'.Fresh k ∧ k ≠ c'.block :=
  ⟨fresh.keeps (step.advances.elsewhere k fresh.bound other) (step.func ready).size,
    step.advances.block_ne other fresh.bound⟩

theorem fresh_atThen (inside : c.block < c.func.blocks.size) (v : Value) {k : Nat}
    (new : c.func.blocks.size ≤ k) (bound : k < c.func.blocks.size + 3) : (atThen c v).Fresh k := by
  have added := Cursor.fresh_addBlocks c "then" "else" "ifcont" new bound
  have three := Cursor.inside_addBlocks inside "then" "else" "ifcont"
  have other : k ≠ (c.addBlocks "then" "else" "ifcont").block := by
    rw [Cursor.block_addBlocks]
    omega
  exact added.fork three other v _ _ _

section branches

variable {condition : Lower Value} {yes no : Lower Unit} {v : Value} {s₁ s₂ s₃ : LowerState}
variable {c₁ c₂ c₃ : Cursor} (parts : BranchRun bad bad' condition yes no id s c v s₁ c₁ s₂ c₂ s₃ c₃)

include parts

theorem BranchRun.fresh_atElse {k : Nat} (new : c₁.func.blocks.size < k)
    (bound : k < c₁.func.blocks.size + 3) : (atElse c₁ c₂).Fresh k := by
  have opened := fresh_atThen parts.tested.ready.here.inside v (Nat.le_of_lt new) bound
  have other : k ≠ (atThen c₁ v).block := Nat.ne_of_gt new
  obtain ⟨written, other'⟩ := parts.first.fresh parts.opened.ready opened other
  exact written.jump parts.first.ready.here.inside other' _ _

theorem BranchRun.fresh_atJoin : (atJoin c₁ c₃).Fresh (c₁.func.blocks.size + 2) := by
  have before := parts.fresh_atElse (k := c₁.func.blocks.size + 2) (by omega) (by omega)
  have other : c₁.func.blocks.size + 2 ≠ (atElse c₁ c₂).block := Nat.succ_ne_self _
  obtain ⟨written, other'⟩ := parts.second.fresh parts.between.ready before other
  exact written.jump parts.second.ready.here.inside other' _ _

end branches

/-! ## Loops -/

/-- The cursor at the body of a loop, from the end of the condition. -/
def atBody (c test : Cursor) (v : Value) : Cursor :=
  test.fork v (c.func.blocks.size + 1) (c.func.blocks.size + 2) (c.func.blocks.size + 1)

/-- The cursor behind a loop, from the end of the body. -/
def atAfter (c body : Cursor) : Cursor :=
  body.jump c.func.blocks.size (c.func.blocks.size + 2)

/-- The parts of a run through a loop. -/
structure LoopRun (bad : Prop) (condition : Lower Value) (body : Lower Unit) (id : Nat)
    (s : LowerState) (c : Cursor) (v : Value) (s₁ : LowerState) (c₁ : Cursor) (s₂ : LowerState)
    (c₂ : Cursor) : Prop where
  opened : Grows False id s c (s.put id (atCondition c)) (atCondition c)
  test : condition (s.put id (atCondition c)) = .ok v s₁
  tested : ExprStep id (s.put id (atCondition c)) (atCondition c) s₁ c₁
  forked : Grows False id s₁ c₁ (s₁.put id (atBody c c₁ v)) (atBody c c₁ v)
  body : body (s₁.put id (atBody c c₁ v)) = .ok () s₂
  round : StmtStep bad id (s₁.put id (atBody c c₁ v)) (atBody c c₁ v) s₂ c₂
  closed : Grows False id s₂ c₂ (s₂.put id (atAfter c c₂)) (atAfter c c₂)

/-- Behind the condition, the body and the block behind the loop can be gone to. -/
theorem grows_atBody {s₁ : LowerState} {c₁ : Cursor} {v : Value} (ready : s.Ready id c)
    (tested : ExprStep id (s.put id (atCondition c)) (atCondition c) s₁ c₁)
    (usable : s₁.CanUse c₁ v) (typed : v.ty = .i1) :
    Grows False id s₁ c₁ (s₁.put id (atBody c c₁ v)) (atBody c c₁ v) := by
  have opened := Grows.atCondition ready
  have target : ∀ {b}, c.func.blocks.size ≤ b → b < c.func.blocks.size + 3 → c₁.func.Target b :=
    fun new bound => (target_atCondition ready new bound).mono (tested.func opened.ready)
  have toBody := target (Nat.le_succ _) (by omega)
  exact Grows.fork tested.ready usable typed toBody (target (Nat.le_add_right _ 2) (by omega))
    toBody.lt_size

theorem grows_atAfter {s₁ s₂ : LowerState} {c₁ c₂ : Cursor} {v : Value} (ready : s.Ready id c)
    (tested : ExprStep id (s.put id (atCondition c)) (atCondition c) s₁ c₁)
    (forked : Grows False id s₁ c₁ (s₁.put id (atBody c c₁ v)) (atBody c c₁ v))
    (round : StmtStep bad id (s₁.put id (atBody c c₁ v)) (atBody c c₁ v) s₂ c₂) :
    Grows False id s₂ c₂ (s₂.put id (atAfter c c₂)) (atAfter c c₂) := by
  have opened := Grows.atCondition ready
  have later := (tested.func opened.ready).trans
    ((forked.func tested.ready).trans (round.func forked.ready))
  have target : ∀ {b}, c.func.blocks.size ≤ b → b < c.func.blocks.size + 3 → c₂.func.Target b :=
    fun new bound => (target_atCondition ready new bound).mono later
  exact Grows.jump round.ready (target (Nat.le_refl _) (by omega))
    (target (Nat.le_add_right _ 2) (by omega)).lt_size

theorem loopRun_of_whileLoop {condition : Lower Value} {body : Lower Unit}
    (tests : LowersTo .i1 condition) (lowers : Lowers bad body) (ready : s.Ready id c)
    (run : whileLoop condition body s = .ok () s') :
    ∃ v s₁ c₁ s₂ c₂, s' = s₂.put id (atAfter c c₂) ∧
      LoopRun bad condition body id s c v s₁ c₁ s₂ c₂ := by
  have opened := Grows.atCondition ready
  rw [whileLoop_eq condition body ready.here] at run
  obtain ⟨v, s₁, test, run⟩ := bind_eq_ok run
  obtain ⟨c₁, tested, usable, typed⟩ := (tests _ id _ opened.ready).ok test
  have forked := grows_atBody ready tested usable typed
  rw [bind_eq_of_ok (fork_eq tested.ready.here v _ _ _)] at run
  obtain ⟨_, s₂, bodyRun, run⟩ := bind_eq_ok run
  obtain ⟨c₂, round⟩ := (lowers _ id _ forked.ready).ok bodyRun
  have closed := grows_atAfter ready tested forked round
  rw [jump_eq round.ready.here] at run
  cases run
  exact ⟨v, s₁, c₁, s₂, c₂, rfl, ⟨opened, test, tested, forked, bodyRun, round, closed⟩⟩

theorem fresh_atCondition (inside : c.block < c.func.blocks.size) {k : Nat}
    (new : c.func.blocks.size ≤ k) (bound : k < c.func.blocks.size + 3) : (atCondition c).Fresh k := by
  have added := Cursor.fresh_addBlocks c "whilecond" "whilebody" "whileafter" new bound
  have three := Cursor.inside_addBlocks inside "whilecond" "whilebody" "whileafter"
  have other : k ≠ (c.addBlocks "whilecond" "whilebody" "whileafter").block := by
    rw [Cursor.block_addBlocks]
    omega
  exact added.jump three other _ _

section loops

variable {condition : Lower Value} {body : Lower Unit} {v : Value} {s₁ s₂ : LowerState}
variable {c₁ c₂ : Cursor} (parts : LoopRun bad condition body id s c v s₁ c₁ s₂ c₂)
variable (inside : c.block < c.func.blocks.size)

include parts inside

theorem LoopRun.fresh_atBody {k : Nat} (new : c.func.blocks.size < k)
    (bound : k < c.func.blocks.size + 3) : (atBody c c₁ v).Fresh k := by
  have opened := fresh_atCondition inside (Nat.le_of_lt new) bound
  have other : k ≠ (atCondition c).block := Nat.ne_of_gt new
  obtain ⟨written, other'⟩ := parts.tested.toStmtStep.fresh parts.opened.ready opened other
  exact written.fork parts.tested.ready.here.inside other' v _ _ _

theorem LoopRun.fresh_atAfter : (atAfter c c₂).Fresh (c.func.blocks.size + 2) := by
  have before := parts.fresh_atBody inside (k := c.func.blocks.size + 2) (by omega) (by omega)
  have other : c.func.blocks.size + 2 ≠ (atBody c c₁ v).block := Nat.succ_ne_self _
  obtain ⟨written, other'⟩ := parts.round.fresh parts.forked.ready before other
  exact written.jump parts.round.ready.here.inside other' _ _

end loops

/-! ## Functions -/

/-- A parameter is declared, and then the others are. -/
theorem storeParams_cons_eq_ok {index : Nat} {param : Token} {params : List Token}
    (ready : s.Ready id c) (numbers : NumbersFrom index (param :: params) c.func)
    (run : storeParams index (param :: params) s = .ok () s') :
    ∃ s₁ c₁, s.CanUse c (.param index .i32) ∧ declare param (.param index .i32) s = .ok () s₁ ∧
      StmtStep False id s c s₁ c₁ ∧ NumbersFrom (index + 1) params c₁.func ∧
      storeParams (index + 1) params s₁ = .ok () s' := by
  obtain ⟨p, found, typed⟩ := numbers 0 (Nat.succ_pos _)
  rw [Nat.add_zero] at found
  have usable : s.CanUse c (.param index .i32) := canUse_param found typed
  rw [storeParams_cons_eq ready.here found typed] at run
  obtain ⟨_, s₁, first, rest⟩ := bind_eq_ok run
  obtain ⟨c₁, step⟩ := (declare_yields ready param usable).ok first
  exact ⟨s₁, c₁, usable, first, step, numbers.tail (step.func ready), rest⟩

/-- The cursor at the end of a function, from that of its body. -/
def atEnd (c : Cursor) : Cursor :=
  c.close (.ret (some (.i32 0)))

/-- The parts of a run through a function, behind its entry. -/
structure BodyRun (bad : Prop) (params : List Token) (body : Lower Unit) (id : Nat) (s : LowerState)
    (c : Cursor) (s₁ : LowerState) (c₁ : Cursor) (s₂ : LowerState) (c₂ : Cursor) : Prop where
  params : storeParams 0 params s = .ok () s₁
  stored : StmtStep False id s c s₁ c₁
  body : body s₁ = .ok () s₂
  written : StmtStep bad id s₁ c₁ s₂ c₂
  ended : Grows False id s₂ c₂ (s₂.put id (atEnd c₂)) (atEnd c₂)

theorem bodyRun_of_run {params : List Token} {body : Lower Unit} (lowers : Lowers bad body)
    (entered : s.Ready id c)
    (numbers : NumbersFrom 0 params c.func)
    (run : (do storeParams 0 params; body; returnZero : Lower Unit) s = .ok () s') :
    ∃ s₁ c₁ s₂ c₂, s' = s₂.put id (atEnd c₂) ∧ BodyRun bad params body id s c s₁ c₁ s₂ c₂ := by
  obtain ⟨_, s₁, first, rest⟩ := bind_eq_ok run
  obtain ⟨_, s₂, second, last⟩ := bind_eq_ok rest
  obtain ⟨c₁, stored⟩ := (storeParams_yields 0 params entered numbers).ok first
  obtain ⟨c₂, written⟩ := (lowers s₁ id c₁ stored.ready).ok second
  have ended := Grows.close written.ready (.ret (some (.i32 0))) (fun bad => bad rfl)
    (Value.Usable.constInt rfl)
  rw [returnZero_eq written.ready.here] at last
  cases last
  exact ⟨s₁, c₁, s₂, c₂, rfl, ⟨first, stored, second, written, ended⟩⟩

/-- A definition of a function enters a new function and leaves it at its end. -/
theorem bodyRun_of_function {name : Token} {params : List Token} {body : Lower Unit}
    (lowers : Lowers bad body) (ready : s.Ready id c) (run : function name params body s = .ok () s') :
    ∃ s₀ s₁ c₁ s₂ c₂, s₀ = ⟨s.emitter.enter (declared name.text params), s.scopes.push .function⟩ ∧
      s₀.Ready s.emitter.module.functions.size ⟨(declared name.text params).addBlock "entry", 0⟩ ∧
      s'.emitter.module = (s₂.put s.emitter.module.functions.size (atEnd c₂)).emitter.module ∧
      BodyRun bad params body s.emitter.module.functions.size s₀
        ⟨(declared name.text params).addBlock "entry", 0⟩ s₁ c₁ s₂ c₂ := by
  cases absent : s.emitter.module.findFunction? name.text with
  | some k =>
    have find_eq : emit (Emitter.findFunction name.text) s = .ok (some k) s := by
      rw [← absent]
      rfl
    rw [function, bind_eq_of_ok find_eq] at run
    cases run
  | none =>
    have entered := Ready.enter s.emitter (s.scopes.push .function) ready.sound
      params absent (s.scopes.lookup_push_function)
    rw [function_eq params body absent] at run
    obtain ⟨s₃, run', rfl⟩ := ensuring_eq_ok run
    obtain ⟨s₁, c₁, s₂, c₂, rfl, parts⟩ := bodyRun_of_run lowers entered
      (numbersFrom_declared name.text params) run'
    exact ⟨_, s₁, c₁, s₂, c₂, rfl, entered, rfl, parts⟩

end Lower

end ImpCompiler
