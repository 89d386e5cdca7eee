import ImpCompiler.Proofs.Ssa.Cursor

/-! # Sound functions

What holds of every function that is written, at every moment and not only at the end: each
operand is a constant, a parameter, or the result of an instruction that stands before in
the same block; each address is a slot of the first block; types fit; branches lead to blocks
that are there, not to the first one and not to one that was opened behind a terminator;
and no local is defined twice.

Nothing is said about missing terminators and about the types of returned values.  Soundness
says more than the check of a module asks for: there, an operand may be defined anywhere in
the function.

Soundness is kept by growth of the other functions (`Func.Sound.mono`) and by every change of
a cursor. -/

namespace ImpCompiler.Ssa

/-! ## Definitions -/

/-- A value that can be used behind the instructions `before` of a block. -/
inductive Value.Usable (m : Module) (f : Func) (before : List Instr) : Value → Prop
  | constInt {ty : Ty} {n : Int} (int : ty.isInt = true) : Usable m f before (.constInt ty n)
  | constFloat {bits : UInt64} : Usable m f before (.constFloat bits)
  | global {id : Nat} {g : Global} (found : m.globals[id]? = some g) :
      Usable m f before (.global id)
  | param {index : Nat} {p : Param} (found : f.params[index]? = some p) (nonvoid : p.ty ≠ .void) :
      Usable m f before (.param index p.ty)
  | result {id : Nat} {i : Instr} {l : Local} (member : i ∈ before)
      (defines : i.result? = some id) (found : f.locals[id]? = some l) (nonvoid : l.ty ≠ .void) :
      Usable m f before (.result id l.ty)

/-- The local `id` is a slot for values of the type `ty`. -/
def Func.HasSlot (f : Func) (id : Nat) (ty : Ty) : Prop :=
  .alloca id ty ∈ f.slots 0

/-- The label of a block that was opened behind a terminator. -/
def DeadLabel (label : String) : Prop :=
  label = "dead" ∨ ∃ k, label = NameTable.numbered "dead" k

/-- A block that a branch may lead to. -/
def Func.Target (f : Func) (b : Nat) : Prop :=
  b ≠ 0 ∧ ∃ label, f.label? b = some label ∧ ¬ DeadLabel label

/-- An instruction that fits behind the instructions `before` of a block. -/
def Instr.Sound (m : Module) (f : Func) (before : List Instr) : Instr → Prop
  | .alloca _ _ => False
  | .load _ _ ptr => ∃ id ty, ptr = .result id .ptr ∧ f.HasSlot id ty
  | .store value ptr =>
    value.Usable m f before ∧ ∃ id, ptr = .result id .ptr ∧ f.HasSlot id value.ty
  | .binary _ op lhs rhs =>
    lhs.Usable m f before ∧ rhs.Usable m f before ∧ rhs.ty = lhs.ty ∧
      (if op.isFloat then lhs.ty.isFloat else lhs.ty.isInt) = true
  | .icmp _ _ lhs rhs =>
    lhs.Usable m f before ∧ rhs.Usable m f before ∧ rhs.ty = lhs.ty ∧ lhs.ty.isInt = true
  | .fcmp _ _ lhs rhs =>
    lhs.Usable m f before ∧ rhs.Usable m f before ∧ lhs.ty = .f64 ∧ rhs.ty = .f64
  | .fneg _ operand => operand.Usable m f before ∧ operand.ty = .f64
  | .zext _ operand ty => operand.Usable m f before ∧ operand.ty.isInt = true ∧ ty.isInt = true
  | .call result callee args =>
    (∀ v ∈ args, v.Usable m f before) ∧ ∃ g, m.functions[callee]? = some g ∧
      args.map Value.ty = g.paramTypes ∧ (result.isSome = true ↔ g.returnType ≠ .void)

/-- A terminator that fits behind the instructions `before` of a block. -/
def Terminator.Sound (m : Module) (f : Func) (before : List Instr) : Terminator → Prop
  | .ret none => True
  | .ret (some value) => value.Usable m f before
  | .branch target => f.Target target
  | .condBranch condition yes no =>
    condition.Usable m f before ∧ condition.ty = .i1 ∧ f.Target yes ∧ f.Target no

/-- A function whose parts fit together, as far as it is written. -/
structure Func.Sound (m : Module) (f : Func) : Prop where
  nodup : f.results.Nodup
  bound : ∀ id ∈ f.results, id < f.locals.size
  entry : ∀ b, b ≠ 0 → f.slots b = []
  slots : ∀ i ∈ f.slots 0, ∃ id ty, i = .alloca id ty ∧ ty ≠ .void ∧
    ∃ l, f.locals[id]? = some l ∧ l.ty = .ptr
  code : ∀ b before i behind, f.code b = before ++ i :: behind → i.Sound m f before
  terminators : ∀ b t, f.terminator? b = some t → t.Sound m f (f.code b)

/-- A module whose functions are sound and have names of their own; a function returns a
    number, or it returns nothing and is declared only. -/
structure Module.Sound (m : Module) : Prop where
  functions : ∀ (id : Nat) (f : Func), m.functions[id]? = some f → f.Sound m
  returns : ∀ (id : Nat) (f : Func), m.functions[id]? = some f →
    f.returnType = .i32 ∨ f.returnType = .void ∧ f.blocks.size = 0
  names : (m.functions.toList.map Func.name).Nodup

/-! ## Growth -/

variable {m M : Module} {f F : Func} {before : List Instr}

theorem Value.Usable.ty_ne_void {v : Value} (usable : v.Usable m f before) : v.ty ≠ .void := by
  cases usable with
  | @constInt ty n int =>
    intro void
    rw [show ty = .void from void] at int
    cases int
  | constFloat => exact Ty.noConfusion
  | global _ => exact Ty.noConfusion
  | param _ nonvoid => exact nonvoid
  | result _ _ _ nonvoid => exact nonvoid

theorem Value.Usable.mono {after : List Instr} {v : Value} (usable : v.Usable m f before)
    (modules : m.Extends M) (functions : f.Extends F) (longer : before <+: after) :
    v.Usable M F after := by
  cases usable with
  | constInt int => exact .constInt int
  | constFloat => exact .constFloat
  | global found => exact .global (modules.globals _ _ found)
  | param found nonvoid => exact .param (functions.params ▸ found) nonvoid
  | result member defines found nonvoid =>
    exact .result (longer.subset member) defines (functions.locals _ _ found) nonvoid

theorem Func.HasSlot.mono {id : Nat} {ty : Ty} (slot : f.HasSlot id ty) (later : f.Extends F) :
    F.HasSlot id ty :=
  (later.slots 0).subset slot

theorem Func.Target.mono {b : Nat} (target : f.Target b) (later : f.Extends F) : F.Target b := by
  obtain ⟨notEntry, label, found, alive⟩ := target
  exact ⟨notEntry, label, later.label? b label found, alive⟩

theorem Func.Target.lt_size {b : Nat} (target : f.Target b) : b < f.blocks.size := by
  obtain ⟨_, label, found, _⟩ := target
  obtain ⟨block, found', _⟩ := Option.map_eq_some_iff.mp found
  exact (Array.getElem?_eq_some_iff.mp found').1

theorem Instr.Sound.mono {i : Instr} (sound : i.Sound m f before) (modules : m.Extends M)
    (functions : f.Extends F) : i.Sound M F before := by
  have keep : ∀ {v : Value}, v.Usable m f before → v.Usable M F before := fun usable =>
    usable.mono modules functions List.prefix_rfl
  cases i with
  | alloca _ _ => exact sound
  | load _ _ ptr =>
    obtain ⟨id, ty, address, slot⟩ := sound
    exact ⟨id, ty, address, slot.mono functions⟩
  | store value ptr =>
    obtain ⟨usable, id, address, slot⟩ := sound
    exact ⟨keep usable, id, address, slot.mono functions⟩
  | binary _ op lhs rhs => exact ⟨keep sound.1, keep sound.2.1, sound.2.2⟩
  | icmp _ _ lhs rhs => exact ⟨keep sound.1, keep sound.2.1, sound.2.2⟩
  | fcmp _ _ lhs rhs => exact ⟨keep sound.1, keep sound.2.1, sound.2.2⟩
  | fneg _ operand => exact ⟨keep sound.1, sound.2⟩
  | zext _ operand ty => exact ⟨keep sound.1, sound.2⟩
  | call result callee args =>
    obtain ⟨usable, g, found, types, value⟩ := sound
    obtain ⟨G, found', later⟩ := modules.functions callee g found
    refine ⟨fun v member => keep (usable v member), G, found', ?_, ?_⟩
    · rw [types, later.paramTypes]
    · rw [value, later.returnType]

theorem Terminator.Sound.mono {t : Terminator} (sound : t.Sound m f before)
    (modules : m.Extends M) (functions : f.Extends F) : t.Sound M F before := by
  cases t with
  | ret value =>
    cases value with
    | none => exact sound
    | some value => exact Value.Usable.mono sound modules functions List.prefix_rfl
  | branch target => exact Func.Target.mono sound functions
  | condBranch condition yes no =>
    obtain ⟨usable, ty, toYes, toNo⟩ := sound
    exact ⟨usable.mono modules functions List.prefix_rfl, ty, toYes.mono functions,
      toNo.mono functions⟩

/-- Soundness does not depend on what else a module grows. -/
theorem Func.Sound.mono (sound : f.Sound m) (modules : m.Extends M) : f.Sound M where
  nodup := sound.nodup
  bound := sound.bound
  entry := sound.entry
  slots := sound.slots
  code b before i behind split := (sound.code b before i behind split).mono modules (.refl f)
  terminators b t ends := (sound.terminators b t ends).mono modules (.refl f)

/-! ## Changes of a cursor -/

theorem Instr.Sound.isAlloca_eq_false {i : Instr} (sound : i.Sound m f before) :
    i.isAlloca = false := by
  cases i with
  | alloca _ _ => exact sound.elim
  | _ => rfl

/-- An operand is a value that can be used, or the address of a slot. -/
theorem Instr.Sound.operand {i : Instr} (sound : i.Sound m f before) {v : Value}
    (member : v ∈ i.operands) :
    v.Usable m f before ∨ ∃ id ty, v = .result id .ptr ∧ f.HasSlot id ty := by
  have pair : ∀ {x y : Value}, v ∈ [x, y] → v = x ∨ v = y := by simp
  cases i with
  | alloca _ _ => exact sound.elim
  | load _ _ ptr =>
    obtain ⟨id, ty, rfl, made⟩ := sound
    exact .inr ⟨id, ty, List.mem_singleton.mp member, made⟩
  | store value ptr =>
    obtain ⟨usable, id, rfl, made⟩ := sound
    rcases pair member with rfl | rfl
    · exact .inl usable
    · exact .inr ⟨id, value.ty, rfl, made⟩
  | binary _ op lhs rhs =>
    rcases pair member with rfl | rfl
    · exact .inl sound.1
    · exact .inl sound.2.1
  | icmp _ test lhs rhs =>
    rcases pair member with rfl | rfl
    · exact .inl sound.1
    · exact .inl sound.2.1
  | fcmp _ test lhs rhs =>
    rcases pair member with rfl | rfl
    · exact .inl sound.1
    · exact .inl sound.2.1
  | fneg _ operand =>
    rw [List.mem_singleton.mp member]
    exact .inl sound.1
  | zext _ operand ty =>
    rw [List.mem_singleton.mp member]
    exact .inl sound.1
  | call result callee args => exact .inl (sound.1 v member)

theorem Terminator.Sound.target {t : Terminator} (sound : t.Sound m f before) {b : Nat}
    (member : b ∈ t.successors) : f.Target b := by
  cases t with
  | ret value => cases member
  | branch target =>
    rw [List.mem_singleton.mp member]
    exact sound
  | condBranch condition yes no =>
    obtain ⟨_, _, toYes, toNo⟩ := sound
    rcases List.mem_cons.mp member with rfl | rest
    · exact toYes
    · rw [List.mem_singleton.mp rest]
      exact toNo

/-- A list with one more element is split inside the list or before that element. -/
theorem split_append_singleton {α : Type} {code before behind : List α} {x i : α}
    (split : code ++ [x] = before ++ i :: behind) :
    (∃ rest, code = before ++ i :: rest) ∨ before = code ∧ i = x := by
  rcases List.eq_nil_or_concat behind with none | ⟨rest, last, some⟩
  · subst none
    obtain ⟨same, last⟩ := List.append_inj' split rfl
    exact .inr ⟨same.symm, (List.cons.inj last).1.symm⟩
  · subst some
    rw [List.concat_eq_append, ← List.cons_append, ← List.append_assoc] at split
    exact .inl ⟨rest, (List.append_inj' split rfl).1⟩

/-- To see that a later state of a sound function is sound, it is enough to look at what
    is new in it. -/
theorem Func.Sound.grow (sound : f.Sound m) (later : f.Extends F) (nodup : F.results.Nodup)
    (bound : ∀ id ∈ F.results, id < F.locals.size) (entry : ∀ b, b ≠ 0 → F.slots b = [])
    (slots : ∀ i ∈ F.slots 0, i ∈ f.slots 0 ∨ ∃ id ty, i = .alloca id ty ∧ ty ≠ .void ∧
      ∃ l, F.locals[id]? = some l ∧ l.ty = .ptr)
    (code : ∀ b before i behind, F.code b = before ++ i :: behind →
      (∃ rest, f.code b = before ++ i :: rest) ∨ i.Sound m F before)
    (terminators : ∀ b t, F.terminator? b = some t →
      f.terminator? b = some t ∨ t.Sound m F (F.code b)) : F.Sound m where
  nodup := nodup
  bound := bound
  entry := entry
  slots i member := by
    rcases slots i member with old | new
    · obtain ⟨id, ty, same, nonvoid, l, found, address⟩ := sound.slots i old
      exact ⟨id, ty, same, nonvoid, l, later.locals id l found, address⟩
    · exact new
  code b before i behind split := by
    rcases code b before i behind split with ⟨rest, old⟩ | new
    · exact (sound.code b before i rest old).mono (.refl m) later
    · exact new
  terminators b t ends := by
    rcases terminators b t ends with old | new
    · rw [(later.terminated b t old).2]
      exact (sound.terminators b t old).mono (.refl m) later
    · exact new

theorem Func.Sound.addBlock (sound : f.Sound m) (label : String) : (f.addBlock label).Sound m := by
  apply sound.grow (extends_addBlock f label)
  · rw [results, instrs_addBlock]
    exact sound.nodup
  · rw [results, instrs_addBlock]
    exact sound.bound
  · intro b notEntry
    rw [slots_addBlock]
    exact sound.entry b notEntry
  · intro i member
    rw [slots_addBlock] at member
    exact .inl member
  · intro b before i behind split
    rw [code_addBlock] at split
    exact .inl ⟨behind, split⟩
  · intro b t ends
    rw [terminator?_addBlock] at ends
    exact .inl ends

/-- The number of the next local is defined by no instruction. -/
theorem Func.Sound.size_not_mem_results (sound : f.Sound m) : f.locals.size ∉ f.results :=
  fun member => Nat.lt_irrefl _ (sound.bound _ member)

theorem Func.Sound.addLocal (sound : f.Sound m) (name : String) (ty : Ty) :
    (f.addLocal name ty).Sound m := by
  apply sound.grow (extends_addLocal f name ty) sound.nodup
  · intro id member
    have old := sound.bound id member
    simpa using Nat.lt_succ_of_lt old
  · exact sound.entry
  · exact fun i member => .inl member
  · exact fun b before i behind split => .inl ⟨behind, split⟩
  · exact fun b t ends => .inl ends

theorem Func.Sound.pushInstr {b : Nat} {i : Instr} (sound : f.Sound m) (open_ : f.IsOpen b)
    (fits : i.Sound m f (f.code b))
    (fresh : ∀ id, i.result? = some id → id ∉ f.results ∧ id < f.locals.size) :
    (f.pushInstr b i).Sound m := by
  have plain := fits.isAlloca_eq_false
  obtain ⟨nodup, bound⟩ := results_cons (instrs_pushInstr open_.1 i) rfl sound.nodup sound.bound fresh
  apply sound.grow (extends_pushInstr open_ plain) nodup bound
  · intro k notEntry
    rw [slots_pushInstr plain]
    exact sound.entry k notEntry
  · intro j member
    rw [slots_pushInstr plain] at member
    exact .inl member
  · intro k before j behind split
    rw [code_pushInstr open_.1 plain] at split
    by_cases here : k = b
    · subst here
      rw [if_pos rfl] at split
      rcases split_append_singleton split with old | ⟨rfl, rfl⟩
      · exact .inl old
      · exact .inr (fits.mono (.refl m) (extends_pushInstr open_ plain))
    · rw [if_neg here] at split
      exact .inl ⟨behind, split⟩
  · intro k t ends
    rw [terminator?_pushInstr] at ends
    exact .inl ends

theorem Func.Sound.insertSlot {id : Nat} {ty : Ty} (sound : f.Sound m)
    (entry : 0 < f.blocks.size) (nonvoid : ty ≠ .void) (fresh : id ∉ f.results) {l : Local}
    (found : f.locals[id]? = some l) (address : l.ty = .ptr) :
    (f.insertSlot (.alloca id ty)).Sound m := by
  have inside : id < f.locals.size := (Array.getElem?_eq_some_iff.mp found).1
  have new : ∀ k, (Instr.alloca id ty).result? = some k → k ∉ f.results ∧ k < f.locals.size := by
    intro k defines
    cases defines
    exact ⟨fresh, inside⟩
  obtain ⟨nodup, bound⟩ := results_cons (instrs_insertSlot entry _) rfl sound.nodup sound.bound new
  apply sound.grow (extends_insertSlot entry rfl) nodup bound
  · intro b notEntry
    rw [slots_insertSlot entry rfl, if_neg notEntry]
    exact sound.entry b notEntry
  · intro i member
    rw [slots_insertSlot entry rfl, if_pos rfl, List.mem_append, List.mem_singleton] at member
    rcases member with old | rfl
    · exact .inl old
    · exact .inr ⟨id, ty, rfl, nonvoid, l, found, address⟩
  · intro b before i behind split
    rw [code_insertSlot rfl] at split
    exact .inl ⟨behind, split⟩
  · intro b t ends
    rw [terminator?_insertSlot] at ends
    exact .inl ends

theorem Func.Sound.terminate {b : Nat} {t : Terminator} (sound : f.Sound m) (open_ : f.IsOpen b)
    (fits : t.Sound m f (f.code b)) : (f.terminate b t).Sound m := by
  apply sound.grow (extends_terminate open_ t)
  · rw [results, instrs_terminate]
    exact sound.nodup
  · rw [results, instrs_terminate]
    exact sound.bound
  · intro k notEntry
    rw [slots_terminate]
    exact sound.entry k notEntry
  · intro i member
    rw [slots_terminate] at member
    exact .inl member
  · intro k before i behind split
    rw [code_terminate] at split
    exact .inl ⟨behind, split⟩
  · intro k t' ends
    rw [terminator?_terminate open_.1] at ends
    by_cases here : k = b
    · subst here
      rw [if_pos rfl, Option.some.injEq] at ends
      subst ends
      rw [code_terminate]
      exact .inr (fits.mono (.refl m) (extends_terminate open_ _))
    · rw [if_neg here] at ends
      exact .inl ends

namespace Cursor

variable {c : Cursor}

theorem sound_opened (sound : c.func.Sound m) : c.opened.func.Sound m := by
  rw [opened]
  split
  · exact sound.addBlock "dead"
  · exact sound

theorem sound_push (sound : c.func.Sound m) (inside : c.block < c.func.blocks.size) {i : Instr}
    (silent : i.result? = none) (fits : i.Sound m c.func (c.func.code c.opened.block)) :
    (c.push i).func.Sound m := by
  apply (sound_opened sound).pushInstr (isOpen_opened inside)
  · rw [code_opened]
    exact fits.mono (.refl m) (extends_opened c)
  · intro id defines
    rw [silent] at defines
    cases defines

theorem sound_pushResult (sound : c.func.Sound m) (inside : c.block < c.func.blocks.size)
    {i : Instr} (defines : i.result? = some c.func.locals.size)
    (fits : i.Sound m c.func (c.func.code c.opened.block)) (ty : Ty) (name : String) :
    (c.pushResult ty name i).func.Sound m := by
  have open_ : (c.opened.func.addLocal name ty).IsOpen c.opened.block := isOpen_opened inside
  apply ((sound_opened sound).addLocal name ty).pushInstr open_
  · rw [Func.code_addLocal, code_opened]
    exact fits.mono (.refl m) ((extends_opened c).trans (Func.extends_addLocal _ name ty))
  · intro id defines'
    have same : c.func.locals.size = id := Option.some.inj (defines.symm.trans defines')
    subst same
    constructor
    · rw [Func.results, Func.instrs_addLocal, instrs_opened]
      exact sound.size_not_mem_results
    · simp

theorem sound_terminate (sound : c.func.Sound m) (inside : c.block < c.func.blocks.size)
    {t : Terminator} (fits : t.Sound m c.func (c.func.code c.opened.block)) :
    (c.terminate t).func.Sound m := by
  apply (sound_opened sound).terminate (isOpen_opened inside)
  rw [code_opened]
  exact fits.mono (.refl m) (extends_opened c)

theorem sound_alloca (sound : c.func.Sound m) (inside : c.block < c.func.blocks.size) {ty : Ty}
    (nonvoid : ty ≠ .void) (name : String) : (c.alloca ty name).func.Sound m := by
  have entry : 0 < (c.func.addLocal name .ptr).blocks.size := Nat.zero_lt_of_lt inside
  have found : (c.func.addLocal name .ptr).locals[c.func.locals.size]? =
      some ⟨(c.func.names.fresh name).1, .ptr⟩ := by simp
  exact (sound.addLocal name .ptr).insertSlot entry nonvoid sound.size_not_mem_results found rfl

end Cursor

/-! ## Labels -/

theorem NameTable.fresh_fst (t : NameTable) (base : String) :
    (t.fresh base).1 = base ∨ ∃ k, (t.fresh base).1 = NameTable.numbered base k := by
  rw [NameTable.fresh]
  split
  · exact .inr ⟨_, rfl⟩
  · exact .inl rfl

/-- A label that does not even start like that of a dead block. -/
def AliveLabel (base : String) : Prop :=
  ∃ letter, base.toList.head? = some letter ∧ letter ≠ 'd'

theorem AliveLabel.not_dead {base : String} (alive : AliveLabel base) (t : NameTable) :
    ¬ DeadLabel (t.fresh base).1 := by
  obtain ⟨letter, first, other⟩ := alive
  have given : (t.fresh base).1.toList.head? = some letter := by
    rcases t.fresh_fst base with same | ⟨k, same⟩ <;>
      simp [same, NameTable.numbered, List.head?_append, first]
  intro dead
  have start : (t.fresh base).1.toList.head? = some 'd' := by
    rcases dead with same | ⟨k, same⟩ <;> simp [same, NameTable.numbered]
  exact other (Option.some.inj (given.symm.trans start))

theorem Func.target_addBlock {base : String} (alive : AliveLabel base)
    (entry : 0 < f.blocks.size) : (f.addBlock base).Target f.blocks.size := by
  refine ⟨Nat.ne_of_gt entry, (f.names.fresh base).1, ?_, alive.not_dead f.names⟩
  rw [label?_addBlock, if_pos rfl]

theorem Cursor.target_addBlocks {c : Cursor} {first second third : String}
    (inside : c.block < c.func.blocks.size) (aliveFirst : AliveLabel first)
    (aliveSecond : AliveLabel second) (aliveThird : AliveLabel third) {b : Nat}
    (new : c.func.blocks.size ≤ b) (bound : b < c.func.blocks.size + 3) :
    (c.addBlocks first second third).func.Target b := by
  have entry : 0 < c.func.blocks.size := Nat.zero_lt_of_lt inside
  have one : (c.addBlock first).func.blocks.size = c.func.blocks.size + 1 := by simp [addBlock]
  have two : ((c.addBlock first).addBlock second).func.blocks.size = c.func.blocks.size + 2 := by
    simp [addBlock]
  have targetFirst : (c.addBlock first).func.Target c.func.blocks.size :=
    Func.target_addBlock aliveFirst entry
  have targetSecond : ((c.addBlock first).addBlock second).func.Target (c.func.blocks.size + 1) :=
    one ▸ Func.target_addBlock aliveSecond (one ▸ Nat.succ_pos _)
  have targetThird : (c.addBlocks first second third).func.Target (c.func.blocks.size + 2) :=
    two ▸ Func.target_addBlock aliveThird (two ▸ Nat.succ_pos _)
  have cases : b = c.func.blocks.size ∨ b = c.func.blocks.size + 1 ∨ b = c.func.blocks.size + 2 := by
    omega
  rcases cases with rfl | rfl | rfl
  · exact (targetFirst.mono (Func.extends_addBlock _ second)).mono (Func.extends_addBlock _ third)
  · exact targetSecond.mono (Func.extends_addBlock _ third)
  · exact targetThird

/-! ## Changes of a module -/

theorem Func.sound_declare (m : Module) (name : String) (params : List Param) (returnType : Ty) :
    (Func.declare name params returnType).Sound m where
  nodup := List.nodup_nil
  bound _ member := by cases member
  entry b _ := by simp [Func.slots, Func.declare]
  slots _ member := by simp [Func.slots, Func.declare] at member
  code b before i behind split := by simp [Func.code, Func.declare] at split
  terminators b t ends := by simp [Func.terminator?, Func.declare] at ends

namespace Module.Sound

variable {id : Nat}

theorem setFunction (sound : m.Sound) (found : m.functions[id]? = some f) (later : f.Extends F)
    (number : f.returnType = .i32) (fits : F.Sound m) :
    Module.Sound { m with functions := m.functions.setIfInBounds id F } := by
  have grown := extends_setFunction found later
  constructor
  · intro k g found'
    rcases (getElem?_setFunction found).mp found' with ⟨_, rfl⟩ | ⟨_, old⟩
    · exact fits.mono grown
    · exact (sound.functions k g old).mono grown
  · intro k g found'
    rcases (getElem?_setFunction found).mp found' with ⟨_, rfl⟩ | ⟨_, old⟩
    · exact .inl (later.returnType.trans number)
    · exact sound.returns k g old
  · have names : (m.functions.setIfInBounds id F).toList.map Func.name =
        m.functions.toList.map Func.name := by
      apply List.ext_getElem?
      intro k
      simp only [List.getElem?_map, Array.getElem?_toList, Array.getElem?_setIfInBounds]
      by_cases same : id = k
      · subst same
        have bound := (Array.getElem?_eq_some_iff.mp found).1
        rw [if_pos rfl, if_pos bound, found, Option.map_some, Option.map_some, later.name]
      · rw [if_neg same]
    rw [names]
    exact sound.names

theorem addFunction (sound : m.Sound) (fits : f.Sound m) (absent : m.findFunction? f.name = none)
    (returns : f.returnType = .i32 ∨ f.returnType = .void ∧ f.blocks.size = 0) :
    (m.addFunction f).Sound := by
  have grown := extends_addFunction m f
  have lookup : ∀ (k : Nat) (g : Func), (m.addFunction f).functions[k]? = some g →
      g = f ∨ m.functions[k]? = some g := by
    intro k g found'
    rw [Module.addFunction, Array.getElem?_push] at found'
    split at found'
    · exact .inl (Option.some.inj found').symm
    · exact .inr found'
  constructor
  · intro k g found'
    rcases lookup k g found' with rfl | old
    · exact fits.mono grown
    · exact (sound.functions k g old).mono grown
  · intro k g found'
    rcases lookup k g found' with rfl | old
    · exact returns
    · exact sound.returns k g old
  · have fresh : f.name ∉ m.functions.toList.map Func.name := by
      intro member
      obtain ⟨g, inside, same⟩ := List.mem_map.mp member
      have none := Array.findIdx?_eq_none_iff.mp absent g (Array.mem_toList_iff.mp inside)
      simp [same] at none
    rw [Module.addFunction, Array.toList_push, List.map_append]
    exact List.nodup_append.mpr ⟨sound.names, by simp, by
      intro a member b last same
      rw [List.map_singleton, List.mem_singleton] at last
      exact fresh (last ▸ same ▸ member)⟩

theorem addGlobal (sound : m.Sound) (bytes : List UInt8) : (m.addGlobal bytes).Sound where
  functions k g found := (sound.functions k g found).mono (extends_addGlobal m bytes)
  returns := sound.returns
  names := sound.names

end Module.Sound

/-! ## Returns and missing terminators

The two things about which soundness says nothing. -/

/-- A return of something other than a number of 32 bits. -/
def Terminator.BadReturn : Terminator → Prop
  | .ret none => True
  | .ret (some value) => value.ty ≠ .i32
  | _ => False

def Func.BadReturn (f : Func) : Prop :=
  ∃ b t, f.terminator? b = some t ∧ t.BadReturn

def Module.BadReturn (m : Module) : Prop :=
  ∃ (id : Nat) (f : Func), m.functions[id]? = some f ∧ f.BadReturn

/-- A function all of whose blocks have terminators. -/
def Func.Finished (f : Func) : Prop :=
  ∀ b, ¬ f.IsOpen b

theorem Func.badReturn_congr (same : ∀ b, F.terminator? b = f.terminator? b) :
    F.BadReturn ↔ f.BadReturn := by
  simp only [Func.BadReturn, same]

theorem Cursor.badReturn_terminate {c : Cursor} (inside : c.block < c.func.blocks.size)
    (t : Terminator) : (c.terminate t).func.BadReturn ↔ c.func.BadReturn ∨ t.BadReturn := by
  constructor
  · rintro ⟨b, t', ends, bad⟩
    rw [terminator?_terminate inside] at ends
    split at ends
    · exact .inr (Option.some.inj ends ▸ bad)
    · exact .inl ⟨b, t', ends, bad⟩
  · rintro (⟨b, t', ends, bad⟩ | bad)
    · exact ⟨b, t', ((extends_terminate inside t).terminated b t' ends).1, bad⟩
    · exact ⟨_, t, by rw [terminator?_terminate inside, if_pos rfl], bad⟩

theorem Module.badReturn_setFunction {id : Nat} {bad : Prop} (found : m.functions[id]? = some f)
    (change : F.BadReturn ↔ f.BadReturn ∨ bad) :
    Module.BadReturn { m with functions := m.functions.setIfInBounds id F } ↔
      m.BadReturn ∨ bad := by
  constructor
  · rintro ⟨k, g, found', badReturn⟩
    rcases (getElem?_setFunction found).mp found' with ⟨_, rfl⟩ | ⟨_, old⟩
    · rcases change.mp badReturn with old | new
      · exact .inl ⟨id, f, found, old⟩
      · exact .inr new
    · exact .inl ⟨k, g, old, badReturn⟩
  · rintro (⟨k, g, old, badReturn⟩ | new)
    · by_cases same : k = id
      · subst same
        have equal : f = g := Option.some.inj (found.symm.trans old)
        subst equal
        exact ⟨k, F, (getElem?_setFunction found).mpr (.inl ⟨rfl, rfl⟩),
          change.mpr (.inl badReturn)⟩
      · exact ⟨k, g, (getElem?_setFunction found).mpr (.inr ⟨same, old⟩), badReturn⟩
    · exact ⟨id, F, (getElem?_setFunction found).mpr (.inl ⟨rfl, rfl⟩), change.mpr (.inr new)⟩

theorem Module.badReturn_addFunction (empty : ∀ b, f.terminator? b = none) :
    (m.addFunction f).BadReturn ↔ m.BadReturn := by
  constructor
  · rintro ⟨k, g, found, badReturn⟩
    rw [Module.addFunction, Array.getElem?_push] at found
    split at found
    · obtain ⟨b, t, ends, _⟩ := badReturn
      rw [← Option.some.inj found, empty] at ends
      cases ends
    · exact ⟨k, g, found, badReturn⟩
  · rintro ⟨k, g, found, badReturn⟩
    obtain ⟨G, found', later⟩ := (extends_addFunction m f).functions k g found
    obtain ⟨b, t, ends, bad⟩ := badReturn
    exact ⟨k, G, found', b, t, (later.terminated b t ends).1, bad⟩

end ImpCompiler.Ssa
