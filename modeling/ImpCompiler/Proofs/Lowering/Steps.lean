import ImpCompiler.Proofs.Lowering.Actions
import ImpCompiler.Proofs.Ssa.Sound

/-! # Steps of lowering

Lowering stands in one function at a time.  `LowerState.Ready s id c` says that `s` stands in the
function with number `id`, at the cursor `c`, that all that has been written is sound, and
that every visible variable has a slot of that function.

`Grows` relates two such states, the second one later than the first.  A step for a statement
(`StmtStep`) also accounts for the blocks that it does not write to, and a step for an
expression (`ExprStep`) leaves the scopes and the slots alone, stays in its block, adds no
functions but declarations, and reads no slots but those of visible variables. -/

namespace ImpCompiler

open Ssa

/-- Every visible variable has a slot of the function `f`. -/
def Scopes.Within (scopes : Scopes) (f : Func) : Prop :=
  ∀ name binding, scopes.lookup name = some binding →
    ∃ slot, binding.slot = .result slot .ptr ∧ f.HasSlot slot binding.ty

theorem Scopes.Within.mono {scopes : Scopes} {f F : Func} (within : scopes.Within f)
    (later : f.Extends F) : scopes.Within F := by
  intro name binding found
  obtain ⟨slot, address, made⟩ := within name binding found
  exact ⟨slot, address, made.mono later⟩

theorem Scopes.Within.define {scopes : Scopes} {f : Func} (within : scopes.Within f) {slot : Nat}
    {ty : Ty} (made : f.HasSlot slot ty) (name : String) :
    (scopes.define name (.result slot .ptr) ty).Within f := by
  intro other binding found
  rw [lookup_define] at found
  split at found
  · rw [← Option.some.inj found]
    exact ⟨slot, rfl, made⟩
  · exact within other binding found

/-- The instruction reads no slot but that of a visible variable. -/
def Ssa.Instr.ReadsVisible (scopes : Scopes) : Instr → Prop
  | .load _ _ ptr => ∃ name binding, scopes.lookup name = some binding ∧ binding.slot = ptr
  | _ => True

/-- Lowering stands at the cursor `c` of the function with number `id`. -/
structure LowerState.Ready (s : LowerState) (id : Nat) (c : Cursor) : Prop where
  here : s.emitter.At id c
  sound : s.emitter.module.Sound
  number : c.func.returnType = .i32
  visible : s.scopes.Within c.func

/-- A value that can be used at the cursor. -/
def LowerState.CanUse (s : LowerState) (c : Cursor) (v : Value) : Prop :=
  v.Usable s.emitter.module c.func (c.func.code c.opened.block)

namespace Lower

/-- The state `s'` is a later one of `s`; `bad` tells whether a bad return is new in it. -/
structure Grows (bad : Prop) (id : Nat) (s : LowerState) (c : Cursor) (s' : LowerState)
    (c' : Cursor) : Prop where
  ready : s'.Ready id c'
  module : s.emitter.module.Extends s'.emitter.module
  /-- Other functions that were there stay as they are. -/
  others : ∀ k, k ≠ id → k < s.emitter.module.functions.size →
    s'.emitter.module.functions[k]? = s.emitter.module.functions[k]?
  /-- New functions are written to their end. -/
  finished : ∀ (k : Nat) (f : Func), s.emitter.module.functions.size ≤ k →
    s'.emitter.module.functions[k]? = some f → f.Finished
  returns : s'.emitter.module.BadReturn ↔ s.emitter.module.BadReturn ∨ bad
  outer : s'.scopes.outer = s.scopes.outer

/-- What a statement does. -/
structure StmtStep (bad : Prop) (id : Nat) (s : LowerState) (c : Cursor) (s' : LowerState)
    (c' : Cursor) : Prop extends Grows bad id s c s' c' where
  advances : c.Advances c'

/-- What an expression does. -/
structure ExprStep (id : Nat) (s : LowerState) (c : Cursor) (s' : LowerState) (c' : Cursor) : Prop
    extends StmtStep False id s c s' c' where
  scopes : s'.scopes = s.scopes
  slots : c'.func.slots 0 = c.func.slots 0
  /-- New functions are declarations only. -/
  declares : ∀ (k : Nat) (f : Func), s.emitter.module.functions.size ≤ k →
    s'.emitter.module.functions[k]? = some f → f.blocks.size = 0
  reads : ∀ (b k : Nat) (i : Instr), (c'.func.code b)[k]? = some i → (c.func.code b).length ≤ k →
    i.ReadsVisible s.scopes
  stays : c.IsOpen → c'.block = c.block ∧ c'.IsOpen

variable {bad bad' : Prop} {id : Nat} {s s' s'' : LowerState} {c c' c'' : Cursor}

/-! ## Composition -/

namespace Grows

theorem func (grows : Grows bad id s c s' c') (ready : s.Ready id c) :
    c.func.Extends c'.func := by
  obtain ⟨F, found, later⟩ := grows.module.functions id c.func ready.here.function
  have same : F = c'.func := Option.some.inj (found.symm.trans grows.ready.here.function)
  exact same ▸ later

theorem refl (ready : s.Ready id c) : Grows False id s c s c where
  ready := ready
  module := .refl _
  others _ _ _ := rfl
  finished k f beyond found := by
    have bound := (Array.getElem?_eq_some_iff.mp found).1
    exact absurd bound (Nat.not_lt.mpr beyond)
  returns := by simp
  outer := rfl

/-- What holds of the functions before a step and of those that are new in it holds of all. -/
theorem forall_functions {P : Nat → Func → Prop} {n : Nat} (grows : Grows bad id s c s' c')
    (old : id < n) (before : ∀ k f, n ≤ k → s.emitter.module.functions[k]? = some f → P k f)
    (new : ∀ k f, s.emitter.module.functions.size ≤ k →
      s'.emitter.module.functions[k]? = some f → P k f) :
    ∀ k f, n ≤ k → s'.emitter.module.functions[k]? = some f → P k f := by
  intro k f beyond found
  by_cases later : s.emitter.module.functions.size ≤ k
  · exact new k f later found
  · rw [grows.others k (Nat.ne_of_gt (Nat.lt_of_lt_of_le old beyond)) (Nat.lt_of_not_le later)] at found
    exact before k f beyond found

theorem trans (first : Grows bad id s c s' c') (second : Grows bad' id s' c' s'' c'')
    (ready : s.Ready id c) : Grows (bad ∨ bad') id s c s'' c'' where
  ready := second.ready
  module := first.module.trans second.module
  others k other bound := by
    rw [second.others k other (Nat.lt_of_lt_of_le bound first.module.size)]
    exact first.others k other bound
  finished := second.forall_functions ready.here.bound first.finished second.finished
  returns := by rw [second.returns, first.returns, or_assoc]
  outer := second.outer.trans first.outer

theorem congr (grows : Grows bad id s c s' c') (same : bad ↔ bad') : Grows bad' id s c s' c' :=
  propext same ▸ grows

end Grows

namespace StmtStep

theorem refl (ready : s.Ready id c) : StmtStep False id s c s c where
  toGrows := .refl ready
  advances := .refl c

theorem trans (first : StmtStep bad id s c s' c') (second : StmtStep bad' id s' c' s'' c'')
    (ready : s.Ready id c) : StmtStep (bad ∨ bad') id s c s'' c'' where
  toGrows := first.toGrows.trans second.toGrows ready
  advances := first.advances.trans second.advances (first.func ready).size

theorem congr (step : StmtStep bad id s c s' c') (same : bad ↔ bad') :
    StmtStep bad' id s c s' c' :=
  propext same ▸ step

end StmtStep

namespace ExprStep

theorem refl (ready : s.Ready id c) : ExprStep id s c s c where
  toStmtStep := .refl ready
  scopes := rfl
  slots := rfl
  declares _ _ beyond found :=
    absurd (Array.getElem?_eq_some_iff.mp found).1 (Nat.not_lt.mpr beyond)
  reads _ _ _ found new := absurd (List.getElem?_eq_some_iff.mp found).1 (Nat.not_lt.mpr new)
  stays open_ := ⟨rfl, open_⟩

theorem trans (first : ExprStep id s c s' c') (second : ExprStep id s' c' s'' c'')
    (ready : s.Ready id c) : ExprStep id s c s'' c'' where
  toStmtStep := (first.toStmtStep.trans second.toStmtStep ready).congr (or_self_iff)
  scopes := second.scopes.trans first.scopes
  slots := second.slots.trans first.slots
  declares := second.forall_functions ready.here.bound first.declares second.declares
  reads b k i found new := by
    -- new in the second step, or there before it and new in the first
    by_cases later : (c'.func.code b).length ≤ k
    · rw [← first.scopes]
      exact second.reads b k i found later
    · obtain ⟨more, all⟩ := (second.func first.ready).code b
      rw [← all, List.getElem?_append_left (Nat.lt_of_not_le later)] at found
      exact first.reads b k i found new
  stays open_ := by
    obtain ⟨same, open'⟩ := first.stays open_
    obtain ⟨same', open''⟩ := second.stays open'
    exact ⟨same'.trans same, open''⟩

/-- What stood in the block to write to still stands there. -/
theorem code_isPrefix (step : ExprStep id s c s' c') (ready : s.Ready id c) :
    c.func.code c.opened.block <+: c'.func.code c'.opened.block :=
  Cursor.code_opened_isPrefix ready.here.inside (step.func ready) step.stays

end ExprStep

end Lower

theorem LowerState.CanUse.step {s s' : LowerState} {id : Nat} {c c' : Cursor} {v : Value}
    (usable : s.CanUse c v) (step : Lower.ExprStep id s c s' c') (ready : s.Ready id c) :
    s'.CanUse c' v :=
  Value.Usable.mono usable step.module (step.func ready) (step.code_isPrefix ready)

namespace Lower

variable {bad : Prop} {id : Nat} {s s' : LowerState} {c c' : Cursor}

/-! ## Elementary steps -/

/-- A change of the cursor adds no function. -/
theorem size_functions_put (s : LowerState) (id : Nat) (c : Cursor) :
    (s.put id c).emitter.module.functions.size = s.emitter.module.functions.size := by
  simp [LowerState.put, Emitter.put]

theorem not_new_of_put {k : Nat} {f : Func} {P : Prop} (beyond : s.emitter.module.functions.size ≤ k)
    (found : (s.put id c).emitter.module.functions[k]? = some f) : P := by
  have bound := (Array.getElem?_eq_some_iff.mp found).1
  rw [size_functions_put] at bound
  exact absurd bound (Nat.not_lt.mpr beyond)

/-- A change of the cursor is a step, whatever it does to the open blocks. -/
theorem Grows.put (ready : s.Ready id c) (later : c.func.Extends c'.func)
    (inside : c'.block < c'.func.blocks.size) (sound : c'.func.Sound s.emitter.module)
    (returns : c'.func.BadReturn ↔ c.func.BadReturn ∨ bad) :
    Grows bad id s c (s.put id c') c' where
  ready :=
    { here := ready.here.put inside
      sound := ready.sound.setFunction ready.here.function later ready.number sound
      number := later.returnType.trans ready.number
      visible := ready.visible.mono later }
  module := Module.extends_setFunction ready.here.function later
  others k other _ := by
    rw [LowerState.put, Emitter.put, Array.getElem?_setIfInBounds_ne (Ne.symm other)]
  finished _ _ beyond found := not_new_of_put beyond found
  returns := Module.badReturn_setFunction ready.here.function returns
  outer := rfl

/-- An instruction that is written behind a list of others is the one new there. -/
theorem eq_of_getElem?_append {is : List Instr} {i j : Instr} {k : Nat} {written : Prop}
    [Decidable written] (found : (if written then is ++ [i] else is)[k]? = some j)
    (new : is.length ≤ k) : i = j := by
  split at found
  · have last := List.mem_of_getElem? (List.getElem?_append_right new ▸ found)
    exact (List.mem_singleton.mp last).symm
  · exact absurd (List.getElem?_eq_some_iff.mp found).1 (Nat.not_lt.mpr new)

theorem ExprStep.push (ready : s.Ready id c) {i : Instr} (silent : i.result? = none)
    (fits : i.Sound s.emitter.module c.func (c.func.code c.opened.block))
    (reads : i.ReadsVisible s.scopes) :
    ExprStep id s c (s.put id (c.push i)) (c.push i) where
  toGrows := by
    have inside := ready.here.inside
    have sound := ready.sound.functions id c.func ready.here.function
    apply Grows.put ready (Cursor.extends_push inside fits.isAlloca_eq_false)
      (Cursor.isOpen_push inside).1 (Cursor.sound_push sound inside silent fits)
    rw [or_false]
    exact Func.badReturn_congr fun b => by simp [Cursor.push]
  advances := .push ready.here.inside fits.isAlloca_eq_false
  scopes := rfl
  slots := by rw [Cursor.push, Func.slots_pushInstr fits.isAlloca_eq_false, Cursor.slots_opened]
  declares _ _ beyond found := not_new_of_put beyond found
  reads b k j found new := by
    rw [Cursor.code_push ready.here.inside fits.isAlloca_eq_false] at found
    exact eq_of_getElem?_append found new ▸ reads
  stays open_ := ⟨Cursor.block_push open_ i, Cursor.isOpen_push ready.here.inside⟩

theorem ExprStep.pushResult (ready : s.Ready id c) {i : Instr}
    (defines : i.result? = some c.func.locals.size)
    (fits : i.Sound s.emitter.module c.func (c.func.code c.opened.block))
    (reads : i.ReadsVisible s.scopes) (ty : Ty) (name : String) :
    ExprStep id s c (s.put id (c.pushResult ty name i)) (c.pushResult ty name i) where
  toGrows := by
    have inside := ready.here.inside
    have sound := ready.sound.functions id c.func ready.here.function
    apply Grows.put ready (Cursor.extends_pushResult inside fits.isAlloca_eq_false ty name)
      (Cursor.isOpen_pushResult inside ty name).1
      (Cursor.sound_pushResult sound inside defines fits ty name)
    rw [or_false]
    exact Func.badReturn_congr fun b => by simp [Cursor.pushResult]
  advances := .pushResult ready.here.inside fits.isAlloca_eq_false ty name
  scopes := rfl
  slots := by
    rw [Cursor.pushResult, Func.slots_pushInstr fits.isAlloca_eq_false, Func.slots_addLocal,
      Cursor.slots_opened]
  declares _ _ beyond found := not_new_of_put beyond found
  reads b k j found new := by
    rw [Cursor.code_pushResult ready.here.inside fits.isAlloca_eq_false] at found
    exact eq_of_getElem?_append found new ▸ reads
  stays open_ :=
    ⟨Cursor.block_pushResult open_ ty name i, Cursor.isOpen_pushResult ready.here.inside ty name⟩

/-- The result of an instruction can be used behind it. -/
theorem canUse_pushResult (ready : s.Ready id c) {i : Instr}
    (defines : i.result? = some c.func.locals.size) (plain : i.isAlloca = false) {ty : Ty}
    (nonvoid : ty ≠ .void) (name : String) :
    (s.put id (c.pushResult ty name i)).CanUse (c.pushResult ty name i)
      (.result c.func.locals.size ty) := by
  have inside := ready.here.inside
  have found : (c.pushResult ty name i).func.locals[c.func.locals.size]? =
      some ⟨(c.opened.func.names.fresh name).1, ty⟩ := by
    simp [Cursor.pushResult]
  rw [LowerState.CanUse, Cursor.opened_eq (Cursor.isOpen_pushResult inside ty name),
    Cursor.code_pushResult inside plain, if_pos rfl]
  exact .result (List.mem_append_right _ (List.mem_singleton.mpr rfl)) defines found nonvoid

theorem StmtStep.alloca (ready : s.Ready id c) {ty : Ty} (nonvoid : ty ≠ .void) (name : String) :
    StmtStep False id s c (s.put id (c.alloca ty name)) (c.alloca ty name) where
  toGrows := by
    have inside := ready.here.inside
    have sound := ready.sound.functions id c.func ready.here.function
    apply Grows.put ready (Cursor.extends_alloca inside ty name) (by simpa [Cursor.alloca] using inside)
      (Cursor.sound_alloca sound inside nonvoid name)
    rw [or_false]
    exact Func.badReturn_congr fun b => by simp [Cursor.alloca]
  advances := .alloca c ty name

theorem hasSlot_alloca (inside : c.block < c.func.blocks.size) (ty : Ty) (name : String) :
    (c.alloca ty name).func.HasSlot c.func.locals.size ty := by
  rw [Func.HasSlot, Cursor.slots_alloca inside, if_pos rfl]
  exact List.mem_append_right _ (List.mem_singleton.mpr rfl)

theorem isOpen_alloca (open_ : c.IsOpen) (ty : Ty) (name : String) : (c.alloca ty name).IsOpen :=
  ⟨by simpa [Cursor.alloca] using open_.1, by simpa [Cursor.alloca] using open_.2⟩

theorem canUse_alloca (ready : s.Ready id c) {v : Value} (usable : s.CanUse c v) {ty : Ty}
    (nonvoid : ty ≠ .void) (name : String) :
    (s.put id (c.alloca ty name)).CanUse (c.alloca ty name) v := by
  have step := StmtStep.alloca ready nonvoid name
  apply Value.Usable.mono usable step.module (step.func ready)
  apply Cursor.code_opened_isPrefix ready.here.inside (step.func ready)
  exact fun open_ => ⟨rfl, isOpen_alloca open_ ty name⟩

theorem Grows.terminate (ready : s.Ready id c) {t : Terminator}
    (fits : t.Sound s.emitter.module c.func (c.func.code c.opened.block)) :
    Grows t.BadReturn id s c (s.put id (c.terminate t)) (c.terminate t) := by
  have inside := ready.here.inside
  have sound := ready.sound.functions id c.func ready.here.function
  apply Grows.put ready (Cursor.extends_terminate inside t)
  · simpa [Cursor.terminate] using (Cursor.isOpen_opened inside).1
  · exact Cursor.sound_terminate sound inside fits
  · exact Cursor.badReturn_terminate inside t

theorem StmtStep.terminate (ready : s.Ready id c) (t : Terminator)
    (fits : t.Sound s.emitter.module c.func (c.func.code c.opened.block)) :
    StmtStep t.BadReturn id s c (s.put id (c.terminate t)) (c.terminate t) where
  toGrows := .terminate ready fits
  advances := .terminate ready.here.inside t

theorem Grows.addBlocks (ready : s.Ready id c) (first second third : String) :
    Grows False id s c (s.put id (c.addBlocks first second third))
      (c.addBlocks first second third) := by
  have sound := ready.sound.functions id c.func ready.here.function
  apply Grows.put ready (Cursor.extends_addBlocks c first second third)
  · exact Cursor.inside_addBlocks ready.here.inside first second third
  · exact ((sound.addBlock first).addBlock second).addBlock third
  · rw [or_false]
    exact Func.badReturn_congr fun b => by simp

theorem canUse_addBlocks (ready : s.Ready id c) {v : Value} (usable : s.CanUse c v)
    (first second third : String) :
    (s.put id (c.addBlocks first second third)).CanUse (c.addBlocks first second third) v := by
  apply Value.Usable.mono usable (Grows.addBlocks ready first second third).module
    (Cursor.extends_addBlocks c first second third)
  apply Cursor.code_opened_isPrefix ready.here.inside (Cursor.extends_addBlocks c first second third)
  exact fun open_ => ⟨rfl, Cursor.isOpen_addBlocks c first second third open_⟩

/-- Ends the current block with a terminator that returns nothing bad. -/
theorem Grows.close (ready : s.Ready id c) (t : Terminator) (good : ¬ t.BadReturn)
    (fits : t.Sound s.emitter.module c.func (c.func.code c.opened.block)) :
    Grows False id s c (s.put id (c.close t)) (c.close t) := by
  rw [Cursor.close]
  split
  · rw [LowerState.put_self ready.here]
    exact .refl ready
  · exact (Grows.terminate ready fits).congr (iff_false_intro good)

theorem Grows.moveTo (ready : s.Ready id c) {b : Nat} (inside : b < c.func.blocks.size) :
    Grows False id s c (s.put id (c.moveTo b)) (c.moveTo b) := by
  have later : c.func.Extends (c.moveTo b).func := .refl c.func
  apply Grows.put ready later inside
  · exact ready.sound.functions id c.func ready.here.function
  · rw [or_false]
    exact Iff.rfl

theorem Grows.fork (ready : s.Ready id c) {v : Value} (usable : s.CanUse c v) (typed : v.ty = .i1)
    {yes no next : Nat} (toYes : c.func.Target yes) (toNo : c.func.Target no)
    (inside : next < c.func.blocks.size) :
    Grows False id s c (s.put id (c.fork v yes no next)) (c.fork v yes no next) := by
  have fits : (Terminator.condBranch v yes no).Sound s.emitter.module c.func
      (c.func.code c.opened.block) := ⟨usable, typed, toYes, toNo⟩
  have ends := Grows.terminate ready fits
  have moves := Grows.moveTo ends.ready (Nat.lt_of_lt_of_le inside (ends.func ready).size)
  rw [LowerState.put_put] at moves
  exact (ends.trans moves ready).congr (or_self_iff)

theorem Grows.jump (ready : s.Ready id c) {target next : Nat} (toTarget : c.func.Target target)
    (inside : next < c.func.blocks.size) :
    Grows False id s c (s.put id (c.jump target next)) (c.jump target next) := by
  have fits : (Terminator.branch target).Sound s.emitter.module c.func
      (c.func.code c.opened.block) := toTarget
  have ends := Grows.close ready (.branch target) not_false fits
  have moves := Grows.moveTo ends.ready (Nat.lt_of_lt_of_le inside (ends.func ready).size)
  rw [LowerState.put_put] at moves
  exact (ends.trans moves ready).congr (or_self_iff)

/-- A step that changes neither the function nor the scopes. -/
theorem ExprStep.setModule {m : Module} (ready : s.Ready id c)
    (later : s.emitter.module.Extends m) (sound : m.Sound)
    (same : ∀ k, k < s.emitter.module.functions.size →
      m.functions[k]? = s.emitter.module.functions[k]?)
    (declares : ∀ (k : Nat) (f : Func), s.emitter.module.functions.size ≤ k →
      m.functions[k]? = some f → f.blocks.size = 0)
    (returns : m.BadReturn ↔ s.emitter.module.BadReturn) :
    ExprStep id s c { s with emitter := { s.emitter with module := m } } c where
  ready :=
    { here :=
        { point := ready.here.point
          function := (same id ready.here.bound).trans ready.here.function
          inside := ready.here.inside }
      sound := sound
      number := ready.number
      visible := ready.visible }
  module := later
  others k _ bound := same k bound
  finished k f beyond found b open_ := by
    -- a function without blocks has no open one
    have bound := open_.1
    rw [declares k f beyond found] at bound
    exact Nat.not_lt_zero b bound
  returns := by rw [or_false, returns]
  outer := rfl
  advances := .refl c
  scopes := rfl
  slots := rfl
  declares := declares
  reads _ _ _ found new := absurd (List.getElem?_eq_some_iff.mp found).1 (Nat.not_lt.mpr new)
  stays open_ := ⟨rfl, open_⟩

theorem ExprStep.addGlobal (ready : s.Ready id c) (bytes : List UInt8) :
    ExprStep id s c
      { s with emitter := { s.emitter with module := s.emitter.module.addGlobal bytes } } c := by
  apply ExprStep.setModule ready (Module.extends_addGlobal _ bytes) (ready.sound.addGlobal bytes)
  · exact fun _ _ => rfl
  · intro k f beyond found
    have bound := (Array.getElem?_eq_some_iff.mp found).1
    exact absurd bound (Nat.not_lt.mpr beyond)
  · exact Iff.rfl

/-- Declares a function that has no blocks. -/
theorem ExprStep.declare (ready : s.Ready id c) {name : String} (params : List Param)
    {returnType : Ty} (returns : returnType = .i32 ∨ returnType = .void)
    (absent : s.emitter.module.findFunction? name = none) :
    ExprStep id s c
      { s with emitter := { s.emitter with
          module := s.emitter.module.addFunction (.declare name params returnType) } } c := by
  have empty : ∀ b, (Func.declare name params returnType).terminator? b = none := by
    intro b
    simp [Func.terminator?, Func.declare]
  apply ExprStep.setModule ready (Module.extends_addFunction _ _)
  · apply ready.sound.addFunction (Func.sound_declare _ name params returnType) absent
    exact returns.imp_right fun void => ⟨void, rfl⟩
  · intro k bound
    rw [Module.addFunction, Array.getElem?_push, if_neg (Nat.ne_of_lt bound)]
  · intro k f beyond found
    rw [Module.addFunction, Array.getElem?_push] at found
    split at found
    · rw [← Option.some.inj found]
      rfl
    · exact absurd (Array.getElem?_eq_some_iff.mp found).1 (Nat.not_lt.mpr beyond)
  · exact Module.badReturn_addFunction empty

end Lower

end ImpCompiler
