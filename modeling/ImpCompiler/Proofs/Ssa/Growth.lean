import ImpCompiler.Ssa.Module

/-! # How functions grow

A function under construction only grows: blocks are added at the end, instructions at the
end of blocks that have no terminator, and slots behind the slots at the front of the first
block.  Slots are the exception to "at the end", so a block is looked at in two parts:
`Block.slots`, its leading allocas, and `Block.code`, what follows them.  With these two
views every operation appends to one list and leaves the others alone.

`Func.Extends` and `Module.Extends` are the resulting orders; a terminated block keeps
its code from then on. -/

namespace ImpCompiler.Ssa

/-! ## The two parts of a block -/

namespace Block

/-- The allocas at the front of a block. -/
def slots (b : Block) : List Instr :=
  b.instrs.toList.takeWhile Instr.isAlloca

/-- The instructions of a block behind the allocas at its front. -/
def code (b : Block) : List Instr :=
  b.instrs.toList.dropWhile Instr.isAlloca

theorem slots_append_code (b : Block) : b.slots ++ b.code = b.instrs.toList :=
  List.takeWhile_append_dropWhile

theorem isAlloca_of_mem_slots {b : Block} {i : Instr} (member : i ∈ b.slots) :
    i.isAlloca = true := by
  have all := List.all_takeWhile (p := Instr.isAlloca) (l := b.instrs.toList)
  exact List.all_eq_true.mp all i member

@[simp] theorem slots_empty (label : String) : (empty label).slots = [] := rfl

@[simp] theorem code_empty (label : String) : (empty label).code = [] := rfl

/-- The block with an instruction at its end. -/
def push (b : Block) (i : Instr) : Block :=
  { b with instrs := b.instrs.push i }

/-- The block with an instruction behind its slots. -/
def pushSlot (b : Block) (i : Instr) : Block :=
  { b with instrs := b.instrs.insertIdxIfInBounds (b.instrs.takeWhile Instr.isAlloca).size i }

theorem slots_push {i : Instr} (plain : i.isAlloca = false) (b : Block) :
    (b.push i).slots = b.slots := by
  simp only [slots, push, Array.toList_push, List.takeWhile_append]
  split
  · rename_i all
    have whole := (List.takeWhile_sublist Instr.isAlloca).eq_of_length all
    simp [plain, whole]
  · rfl

theorem code_push {i : Instr} (plain : i.isAlloca = false) (b : Block) :
    (b.push i).code = b.code ++ [i] := by
  simp only [code, push, Array.toList_push, List.dropWhile_append]
  split
  · rename_i none
    simp [plain, List.isEmpty_iff.mp none]
  · rfl

/-- A new slot stands between the slots and the code that were there. -/
theorem toList_pushSlot (b : Block) (i : Instr) :
    (b.pushSlot i).instrs.toList = b.slots ++ i :: b.code := by
  have bound : (b.instrs.takeWhile Instr.isAlloca).size ≤ b.instrs.size := by
    rw [← Array.length_toList, Array.toList_takeWhile, ← Array.length_toList]
    exact (List.takeWhile_sublist _).length_le
  have length : (b.instrs.takeWhile Instr.isAlloca).size = b.slots.length := by
    rw [← Array.length_toList, Array.toList_takeWhile, slots]
  simp only [pushSlot, Array.insertIdxIfInBounds, bound, dif_pos, Array.toList_insertIdx]
  rw [length, ← b.slots_append_code]
  induction b.slots with
  | nil => simp
  | cons x xs ih => simp [ih]

theorem takeWhile_code (b : Block) : b.code.takeWhile Instr.isAlloca = [] := by
  have head := List.head?_dropWhile_not Instr.isAlloca b.instrs.toList
  rw [code]
  cases rest : b.instrs.toList.dropWhile Instr.isAlloca with
  | nil => rfl
  | cons i is =>
    rw [rest] at head
    exact List.takeWhile_cons_of_neg (by simpa using head)

theorem slots_pushSlot {i : Instr} (slot : i.isAlloca = true) (b : Block) :
    (b.pushSlot i).slots = b.slots ++ [i] := by
  rw [slots, toList_pushSlot, List.takeWhile_append_of_pos fun _ => isAlloca_of_mem_slots,
    List.takeWhile_cons_of_pos slot, takeWhile_code]

theorem code_pushSlot {i : Instr} (slot : i.isAlloca = true) (b : Block) :
    (b.pushSlot i).code = b.code := by
  have parts := (b.pushSlot i).slots_append_code
  rw [toList_pushSlot, slots_pushSlot slot, List.append_assoc, List.singleton_append] at parts
  exact (List.cons.inj (List.append_cancel_left parts)).2

end Block

/-! ## The views of a function -/

namespace Func

/-- The slots at the front of a block. -/
def slots (f : Func) (b : Nat) : List Instr :=
  (f.blocks[b]?.map Block.slots).getD []

/-- The code of a block. -/
def code (f : Func) (b : Nat) : List Instr :=
  (f.blocks[b]?.map Block.code).getD []

/-- The terminator of a block, if it has one. -/
def terminator? (f : Func) (b : Nat) : Option Terminator :=
  (f.blocks[b]?.map Block.terminator).getD none

/-- The label of a block. -/
def label? (f : Func) (b : Nat) : Option String :=
  f.blocks[b]?.map Block.label

theorem slots_eq {f : Func} {b : Nat} {block : Block} (found : f.blocks[b]? = some block) :
    f.slots b = block.slots := by
  simp [slots, found]

theorem code_eq {f : Func} {b : Nat} {block : Block} (found : f.blocks[b]? = some block) :
    f.code b = block.code := by
  simp [code, found]

theorem terminator?_eq {f : Func} {b : Nat} {block : Block} (found : f.blocks[b]? = some block) :
    f.terminator? b = block.terminator := by
  simp [terminator?, found]

theorem lt_size_of_terminator? {f : Func} {b : Nat} {t : Terminator}
    (ends : f.terminator? b = some t) : b < f.blocks.size := by
  by_cases bound : b < f.blocks.size
  · exact bound
  · simp [terminator?, Array.getElem?_eq_none (Nat.not_lt.mp bound)] at ends

/-! ### New blocks -/

section addBlock

variable (f : Func) (label : String)

@[simp] theorem blocks_addBlock :
    (f.addBlock label).blocks = f.blocks.push (.empty (f.names.fresh label).1) := rfl

@[simp] theorem params_addBlock : (f.addBlock label).params = f.params := rfl

@[simp] theorem locals_addBlock : (f.addBlock label).locals = f.locals := rfl

theorem size_addBlock : (f.addBlock label).blocks.size = f.blocks.size + 1 := by simp

@[simp] theorem slots_addBlock (b : Nat) : (f.addBlock label).slots b = f.slots b := by
  simp only [slots, blocks_addBlock, Array.getElem?_push]
  split
  · rename_i new
    simp [new]
  · rfl

@[simp] theorem code_addBlock (b : Nat) : (f.addBlock label).code b = f.code b := by
  simp only [code, blocks_addBlock, Array.getElem?_push]
  split
  · rename_i new
    simp [new]
  · rfl

@[simp] theorem terminator?_addBlock (b : Nat) :
    (f.addBlock label).terminator? b = f.terminator? b := by
  simp only [terminator?, blocks_addBlock, Array.getElem?_push]
  split
  · rename_i new
    simp [new, Block.empty]
  · rfl

theorem label?_addBlock (b : Nat) :
    (f.addBlock label).label? b =
      if b = f.blocks.size then some (f.names.fresh label).1 else f.label? b := by
  simp only [label?, blocks_addBlock, Array.getElem?_push]
  split <;> rfl

end addBlock

/-! ### New locals -/

section addLocal

variable (f : Func) (name : String) (ty : Ty)

@[simp] theorem blocks_addLocal : (f.addLocal name ty).blocks = f.blocks := rfl

@[simp] theorem locals_addLocal :
    (f.addLocal name ty).locals = f.locals.push ⟨(f.names.fresh name).1, ty⟩ := rfl

@[simp] theorem slots_addLocal (b : Nat) : (f.addLocal name ty).slots b = f.slots b := rfl

@[simp] theorem code_addLocal (b : Nat) : (f.addLocal name ty).code b = f.code b := rfl

@[simp] theorem terminator?_addLocal (b : Nat) :
    (f.addLocal name ty).terminator? b = f.terminator? b := rfl

end addLocal

/-! ### Changes of a block -/

/-- A change of one block does not show in a view that the change keeps. -/
theorem map_getElem?_modify {α : Type} (view : Block → α) {change : Block → Block}
    (blocks : Array Block) (b k : Nat) (keeps : ∀ block, view (change block) = view block) :
    (blocks.modify b change)[k]?.map view = blocks[k]?.map view := by
  rw [Array.getElem?_modify]
  split
  · rw [Option.map_map]
    congr 1
    funext block
    exact keeps block
  · rfl

section changes

variable (f : Func) (b : Nat) (i : Instr) (t : Terminator)

theorem blocks_pushInstr : (f.pushInstr b i).blocks = f.blocks.modify b (Block.push · i) := rfl

theorem blocks_insertSlot :
    (f.insertSlot i).blocks = f.blocks.modify 0 (Block.pushSlot · i) := rfl

theorem blocks_terminate :
    (f.terminate b t).blocks = f.blocks.modify b fun block => { block with terminator := some t } :=
  rfl

@[simp] theorem size_pushInstr : (f.pushInstr b i).blocks.size = f.blocks.size := by
  simp [blocks_pushInstr]

@[simp] theorem size_insertSlot : (f.insertSlot i).blocks.size = f.blocks.size := by
  simp [blocks_insertSlot]

@[simp] theorem size_terminate : (f.terminate b t).blocks.size = f.blocks.size := by
  simp [blocks_terminate]

@[simp] theorem locals_pushInstr : (f.pushInstr b i).locals = f.locals := rfl

@[simp] theorem locals_insertSlot : (f.insertSlot i).locals = f.locals := rfl

@[simp] theorem locals_terminate : (f.terminate b t).locals = f.locals := rfl

@[simp] theorem slots_terminate (k : Nat) : (f.terminate b t).slots k = f.slots k := by
  simp only [slots, blocks_terminate]
  rw [map_getElem?_modify]
  exact fun _ => rfl

@[simp] theorem code_terminate (k : Nat) : (f.terminate b t).code k = f.code k := by
  simp only [code, blocks_terminate]
  rw [map_getElem?_modify]
  exact fun _ => rfl

@[simp] theorem label?_terminate (k : Nat) : (f.terminate b t).label? k = f.label? k := by
  simp only [label?, blocks_terminate]
  rw [map_getElem?_modify]
  exact fun _ => rfl

@[simp] theorem terminator?_pushInstr (k : Nat) :
    (f.pushInstr b i).terminator? k = f.terminator? k := by
  simp only [terminator?, blocks_pushInstr]
  rw [map_getElem?_modify]
  exact fun _ => rfl

@[simp] theorem terminator?_insertSlot (k : Nat) :
    (f.insertSlot i).terminator? k = f.terminator? k := by
  simp only [terminator?, blocks_insertSlot]
  rw [map_getElem?_modify]
  exact fun _ => rfl

@[simp] theorem label?_pushInstr (k : Nat) : (f.pushInstr b i).label? k = f.label? k := by
  simp only [label?, blocks_pushInstr]
  rw [map_getElem?_modify]
  exact fun _ => rfl

@[simp] theorem label?_insertSlot (k : Nat) : (f.insertSlot i).label? k = f.label? k := by
  simp only [label?, blocks_insertSlot]
  rw [map_getElem?_modify]
  exact fun _ => rfl

end changes

variable {f : Func} {b : Nat}

theorem slots_pushInstr {i : Instr} (plain : i.isAlloca = false) (k : Nat) :
    (f.pushInstr b i).slots k = f.slots k := by
  simp only [slots, blocks_pushInstr]
  rw [map_getElem?_modify _ _ _ _ (Block.slots_push plain)]

theorem code_insertSlot {i : Instr} (slot : i.isAlloca = true) (k : Nat) :
    (f.insertSlot i).code k = f.code k := by
  simp only [code, blocks_insertSlot]
  rw [map_getElem?_modify _ _ _ _ (Block.code_pushSlot slot)]

theorem terminator?_terminate (bound : b < f.blocks.size) (t : Terminator) (k : Nat) :
    (f.terminate b t).terminator? k = if k = b then some t else f.terminator? k := by
  simp only [terminator?, blocks_terminate, Array.getElem?_modify, eq_comm (a := b)]
  split
  · rename_i same
    simp [same, bound]
  · rfl

theorem code_pushInstr (bound : b < f.blocks.size) {i : Instr} (plain : i.isAlloca = false)
    (k : Nat) :
    (f.pushInstr b i).code k = if k = b then f.code k ++ [i] else f.code k := by
  simp only [code, blocks_pushInstr, Array.getElem?_modify, eq_comm (a := b)]
  split
  · rename_i same
    simp [same, bound, Block.code_push plain]
  · rfl

theorem slots_insertSlot (bound : 0 < f.blocks.size) {i : Instr} (slot : i.isAlloca = true)
    (k : Nat) :
    (f.insertSlot i).slots k = if k = 0 then f.slots k ++ [i] else f.slots k := by
  simp only [slots, blocks_insertSlot, Array.getElem?_modify, eq_comm (a := 0)]
  split
  · rename_i same
    simp [same, bound, Block.slots_pushSlot slot]
  · rfl

/-! ### All instructions -/

theorem mem_instrs {f : Func} {i : Instr} :
    i ∈ f.instrs ↔ ∃ b, i ∈ f.slots b ∨ i ∈ f.code b := by
  simp only [instrs, List.mem_flatMap]
  constructor
  · rintro ⟨block, member, inside⟩
    obtain ⟨b, found⟩ := Array.getElem?_of_mem (Array.mem_toList_iff.mp member)
    rw [← block.slots_append_code, List.mem_append] at inside
    exact ⟨b, by rwa [slots_eq found, code_eq found]⟩
  · rintro ⟨b, inside⟩
    cases found : f.blocks[b]? with
    | none => simp [slots, code, found] at inside
    | some block =>
      rw [slots_eq found, code_eq found, ← List.mem_append, block.slots_append_code] at inside
      exact ⟨block, Array.mem_toList_iff.mpr (Array.mem_of_getElem? found), inside⟩

/-- The locals that the instructions of a function define. -/
def results (f : Func) : List Nat :=
  f.instrs.filterMap Instr.result?

theorem mem_results {f : Func} {id : Nat} :
    id ∈ f.results ↔ ∃ i ∈ f.instrs, i.result? = some id := by
  simp [results]

theorem flatMap_modify_perm {change : Block → Block} {i : Instr}
    (adds : ∀ block : Block, (change block).instrs.toList.Perm (i :: block.instrs.toList))
    (blocks : List Block) (b : Nat) (bound : b < blocks.length) :
    ((blocks.modify b change).flatMap fun block => block.instrs.toList).Perm
      (i :: blocks.flatMap fun block => block.instrs.toList) := by
  induction blocks generalizing b with
  | nil => cases bound
  | cons block blocks ih =>
    cases b with
    | zero =>
      simp only [List.modify_zero_cons, List.flatMap_cons]
      exact (adds block).append_right _
    | succ b =>
      simp only [List.modify_succ_cons, List.flatMap_cons]
      exact ((ih b (Nat.lt_of_succ_lt_succ bound)).append_left _).trans List.perm_middle

theorem instrs_pushInstr (bound : b < f.blocks.size) (i : Instr) :
    (f.pushInstr b i).instrs.Perm (i :: f.instrs) := by
  rw [instrs, blocks_pushInstr, Array.toList_modify]
  refine flatMap_modify_perm (fun block => ?_) f.blocks.toList b (by simpa using bound)
  rw [Block.push, Array.toList_push]
  exact List.perm_append_singleton i _

theorem instrs_insertSlot (bound : 0 < f.blocks.size) (i : Instr) :
    (f.insertSlot i).instrs.Perm (i :: f.instrs) := by
  rw [instrs, blocks_insertSlot, Array.toList_modify]
  refine flatMap_modify_perm (fun block => ?_) f.blocks.toList 0 (by simpa using bound)
  rw [Block.toList_pushSlot, ← block.slots_append_code]
  exact List.perm_middle

/-- With one more instruction, whose result is a local that has no definition, no local is defined
    twice. -/
theorem results_cons {f F : Func} {i : Instr} (written : F.instrs.Perm (i :: f.instrs))
    (locals : F.locals = f.locals) (once : f.results.Nodup)
    (known : ∀ id ∈ f.results, id < f.locals.size)
    (fresh : ∀ id, i.result? = some id → id ∉ f.results ∧ id < f.locals.size) :
    F.results.Nodup ∧ ∀ id ∈ F.results, id < F.locals.size := by
  have results : F.results.Perm ((i :: f.instrs).filterMap Instr.result?) := written.filterMap _
  rw [results.nodup_iff, locals]
  simp only [results.mem_iff]
  cases defined : i.result? with
  | none =>
    rw [List.filterMap_cons_none defined]
    exact ⟨once, known⟩
  | some id =>
    obtain ⟨new, bound⟩ := fresh id defined
    rw [List.filterMap_cons_some defined]
    exact ⟨List.nodup_cons.mpr ⟨new, once⟩, List.forall_mem_cons.mpr ⟨bound, known⟩⟩

@[simp] theorem instrs_addBlock (f : Func) (label : String) :
    (f.addBlock label).instrs = f.instrs := by
  simp [instrs, Block.empty]

@[simp] theorem instrs_addLocal (f : Func) (name : String) (ty : Ty) :
    (f.addLocal name ty).instrs = f.instrs := rfl

@[simp] theorem instrs_terminate (f : Func) (b : Nat) (t : Terminator) :
    (f.terminate b t).instrs = f.instrs := by
  rw [instrs, blocks_terminate, Array.toList_modify, instrs]
  generalize f.blocks.toList = blocks
  induction blocks generalizing b with
  | nil => simp
  | cons block blocks ih =>
    cases b with
    | zero => rfl
    | succ b => simp only [List.modify_succ_cons, List.flatMap_cons, ih b]

/-! ## Growth -/

/-- Whether a block is there and has no terminator. -/
def IsOpen (f : Func) (b : Nat) : Prop :=
  b < f.blocks.size ∧ f.terminator? b = none

/-- `f.Extends F`: `F` is a later state of the function `f`. -/
structure Extends (f F : Func) : Prop where
  name : F.name = f.name
  params : F.params = f.params
  returnType : F.returnType = f.returnType
  locals : ∀ (id : Nat) (l : Local), f.locals[id]? = some l → F.locals[id]? = some l
  size : f.blocks.size ≤ F.blocks.size
  label? : ∀ b label, f.label? b = some label → F.label? b = some label
  slots : ∀ b, f.slots b <+: F.slots b
  code : ∀ b, f.code b <+: F.code b
  terminated : ∀ b t, f.terminator? b = some t → F.terminator? b = some t ∧ F.code b = f.code b

namespace Extends

theorem refl (f : Func) : f.Extends f where
  name := rfl
  params := rfl
  returnType := rfl
  locals _ _ found := found
  size := Nat.le_refl _
  label? _ _ found := found
  slots _ := List.prefix_rfl
  code _ := List.prefix_rfl
  terminated _ _ ends := ⟨ends, rfl⟩

theorem trans {f g h : Func} (first : f.Extends g) (second : g.Extends h) : f.Extends h where
  name := second.name.trans first.name
  params := second.params.trans first.params
  returnType := second.returnType.trans first.returnType
  locals id l found := second.locals id l (first.locals id l found)
  size := Nat.le_trans first.size second.size
  label? b label found := second.label? b label (first.label? b label found)
  slots b := (first.slots b).trans (second.slots b)
  code b := (first.code b).trans (second.code b)
  terminated b t ends := by
    obtain ⟨ends', same⟩ := first.terminated b t ends
    obtain ⟨ends'', same'⟩ := second.terminated b t ends'
    exact ⟨ends'', same'.trans same⟩

theorem paramTypes {f F : Func} (later : f.Extends F) : F.paramTypes = f.paramTypes := by
  rw [Func.paramTypes, later.params, Func.paramTypes]

end Extends

theorem extends_addBlock (f : Func) (label : String) : f.Extends (f.addBlock label) where
  name := rfl
  params := rfl
  returnType := rfl
  locals _ _ found := found
  size := by simp
  label? b label found := by
    rw [label?_addBlock, if_neg]
    · exact found
    · rintro rfl
      simp [Func.label?] at found
  slots b := by simp
  code b := by simp
  terminated b t ends := by simpa using ends

theorem extends_addLocal (f : Func) (name : String) (ty : Ty) :
    f.Extends (f.addLocal name ty) where
  name := rfl
  params := rfl
  returnType := rfl
  locals id l found := by
    rw [locals_addLocal, Array.getElem?_push, if_neg]
    · exact found
    · rintro rfl
      simp at found
  size := Nat.le_refl _
  label? _ _ found := found
  slots b := List.prefix_rfl
  code b := List.prefix_rfl
  terminated b t ends := ⟨ends, rfl⟩

theorem extends_pushInstr {f : Func} {b : Nat} (open_ : f.IsOpen b) {i : Instr}
    (plain : i.isAlloca = false) : f.Extends (f.pushInstr b i) where
  name := rfl
  params := rfl
  returnType := rfl
  locals _ _ found := found
  size := by simp
  label? b label found := by simpa using found
  slots k := by simp [slots_pushInstr plain]
  code k := by
    rw [code_pushInstr open_.1 plain]
    split
    · exact List.prefix_append _ _
    · exact List.prefix_rfl
  terminated k t ends := by
    rw [code_pushInstr open_.1 plain, if_neg, terminator?_pushInstr]
    · exact ⟨ends, rfl⟩
    · rintro rfl
      rw [open_.2] at ends
      cases ends

theorem extends_insertSlot {f : Func} (bound : 0 < f.blocks.size) {i : Instr}
    (slot : i.isAlloca = true) : f.Extends (f.insertSlot i) where
  name := rfl
  params := rfl
  returnType := rfl
  locals _ _ found := found
  size := by simp
  label? b label found := by simpa using found
  slots k := by
    rw [slots_insertSlot bound slot]
    split
    · exact List.prefix_append _ _
    · exact List.prefix_rfl
  code k := by simp [code_insertSlot slot]
  terminated k t ends := by simpa [code_insertSlot slot] using ends

theorem extends_terminate {f : Func} {b : Nat} (open_ : f.IsOpen b) (t : Terminator) :
    f.Extends (f.terminate b t) where
  name := rfl
  params := rfl
  returnType := rfl
  locals _ _ found := found
  size := by simp
  label? b label found := by simpa using found
  slots k := by simp
  code k := by simp
  terminated k t' ends := by
    rw [terminator?_terminate open_.1, if_neg, code_terminate]
    · exact ⟨ends, rfl⟩
    · rintro rfl
      rw [open_.2] at ends
      cases ends

end Func

/-- `m.Extends M`: `M` is a later state of the module `m`. -/
structure Module.Extends (m M : Module) : Prop where
  functions : ∀ (id : Nat) (f : Func), m.functions[id]? = some f →
    ∃ F, M.functions[id]? = some F ∧ f.Extends F
  globals : ∀ (id : Nat) (g : Global), m.globals[id]? = some g → M.globals[id]? = some g

namespace Module.Extends

theorem size {m M : Module} (later : m.Extends M) : m.functions.size ≤ M.functions.size := by
  rcases Nat.lt_or_ge M.functions.size m.functions.size with less | bound
  · obtain ⟨F, found, _⟩ := later.functions _ _ (Array.getElem?_eq_getElem less)
    simp at found
  · exact bound

theorem refl (m : Module) : m.Extends m where
  functions _ f found := ⟨f, found, Func.Extends.refl f⟩
  globals _ _ found := found

theorem trans {m n o : Module} (first : m.Extends n) (second : n.Extends o) : m.Extends o where
  functions id f found := by
    obtain ⟨g, found', step⟩ := first.functions id f found
    obtain ⟨h, found'', step'⟩ := second.functions id g found'
    exact ⟨h, found'', step.trans step'⟩
  globals id g found := second.globals id g (first.globals id g found)

end Module.Extends

namespace Module

variable {m : Module} {id : Nat} {f F : Func}

theorem findFunction?_eq_some {name : String} (found : m.findFunction? name = some id) :
    ∃ f, m.functions[id]? = some f ∧ f.name = name := by
  obtain ⟨bound, named, _⟩ := Array.findIdx?_eq_some_iff_getElem.mp found
  exact ⟨m.functions[id], Array.getElem?_eq_getElem bound, by simpa using named⟩

/-- The functions of a module in which one has been replaced. -/
theorem getElem?_setFunction (found : m.functions[id]? = some f) {k : Nat} {g : Func} :
    (m.functions.setIfInBounds id F)[k]? = some g ↔
      k = id ∧ g = F ∨ k ≠ id ∧ m.functions[k]? = some g := by
  have bound := (Array.getElem?_eq_some_iff.mp found).1
  rw [Array.getElem?_setIfInBounds]
  by_cases same : id = k
  · subst same
    simp [bound, eq_comm]
  · simp [same, Ne.symm same]

/-- To change a function is to replace it. -/
theorem modifyFunction_eq (found : m.functions[id]? = some f) (change : Func → Func) :
    m.modifyFunction id change =
      { m with functions := m.functions.setIfInBounds id (change f) } := by
  have bound := (Array.getElem?_eq_some_iff.mp found).1
  have functions : m.functions.modify id change =
      m.functions.setIfInBounds id (change f) := by
    apply Array.ext_getElem?
    intro k
    rw [Array.getElem?_modify, Array.getElem?_setIfInBounds]
    by_cases same : id = k
    · subst same
      rw [if_pos rfl, if_pos rfl, if_pos bound, found]
      rfl
    · rw [if_neg same, if_neg same]
  rw [modifyFunction, functions]

/-- A module with a later state of one of its functions. -/
theorem extends_setFunction (found : m.functions[id]? = some f) (later : f.Extends F) :
    m.Extends { m with functions := m.functions.setIfInBounds id F } where
  functions k g found' := by
    by_cases same : id = k
    · subst same
      have bound := (Array.getElem?_eq_some_iff.mp found).1
      have equal : f = g := Option.some.inj (found.symm.trans found')
      exact ⟨F, by simp [bound], equal ▸ later⟩
    · exact ⟨g, by simpa [same] using found', .refl g⟩
  globals _ _ found := found

theorem extends_addFunction (m : Module) (f : Func) : m.Extends (m.addFunction f) where
  functions k g found := by
    have bound := (Array.getElem?_eq_some_iff.mp found).1
    refine ⟨g, ?_, .refl g⟩
    rw [addFunction, Array.getElem?_push, if_neg (Nat.ne_of_lt bound)]
    exact found
  globals _ _ found := found

theorem extends_addGlobal (m : Module) (bytes : List UInt8) : m.Extends (m.addGlobal bytes) where
  functions _ g found := ⟨g, found, .refl g⟩
  globals k g found := by
    have bound := (Array.getElem?_eq_some_iff.mp found).1
    rw [addGlobal, Array.getElem?_push, if_neg (Nat.ne_of_lt bound)]
    exact found

end Module

/-! ## Declarations -/

/-- Parameters that are entered one by one, each with its type, all have their types. -/
theorem types_foldl {enter : NameTable × Array Param → Param → NameTable × Array Param}
    (keeps : ∀ done p, (enter done p).2.toList.map Param.ty = done.2.toList.map Param.ty ++ [p.ty])
    (params : List Param) (done : NameTable × Array Param) :
    (params.foldl enter done).2.toList.map Param.ty =
      done.2.toList.map Param.ty ++ params.map Param.ty := by
  induction params generalizing done with
  | nil => simp
  | cons p params ih => simp [ih, keeps]

/-- The parameters of a declaration keep their types; only their names may change. -/
theorem Func.paramTypes_declare (name : String) (params : List Param) (returnType : Ty) :
    (Func.declare name params returnType).paramTypes = params.map Param.ty :=
  types_foldl (fun _ _ => by simp) params (NameTable.empty, #[])

end ImpCompiler.Ssa
