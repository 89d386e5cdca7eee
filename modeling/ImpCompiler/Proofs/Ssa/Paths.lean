import ImpCompiler.Proofs.Ssa.Checked

/-! # Paths through a function

`Func.Reaches f done b` says that control can come to the start of the block `b` of `f`, and
that `done` are the instructions that have been executed by then.

A sound function is in single assignment form (`Func.Sound.inSsaForm`): results are used in the
block that defines them and behind their definition, slots are made at the very start, and
so every use comes after its definition on every path. -/

namespace ImpCompiler.Ssa

/-- Control can come to the block `b` with the instructions `done` executed, in this order. -/
inductive Func.Reaches (f : Func) : List Instr → Nat → Prop
  | entry : Reaches f [] 0
  | step {done : List Instr} {b target : Nat} {block : Block} {t : Terminator}
      (path : Reaches f done b) (found : f.blocks[b]? = some block)
      (ends : block.terminator = some t) (edge : target ∈ t.successors) :
      Reaches f (done ++ block.instrs.toList) target

/-- The values that are used at a position of a block; the terminator has the position behind
    the last instruction. -/
def Block.usedAt (block : Block) (k : Nat) : List Value :=
  match block.instrs[k]? with
  | some i => i.operands
  | none => if k = block.instrs.size then (block.terminator.map Terminator.operands).getD [] else []

/-- A function in single assignment form. -/
structure Func.InSsaForm (f : Func) : Prop where
  /-- No local is defined twice. -/
  defined_once : f.results.Nodup
  /-- A local that is no slot is used in the block that defines it, behind its definition. -/
  used_in_block : ∀ block ∈ f.blocks.toList, ∀ k id ty, .result id ty ∈ block.usedAt k →
    (∃ slotType, .alloca id slotType ∈ f.instrs) ∨
      ∃ (j : Nat) (i : Instr), j < k ∧ block.instrs[j]? = some i ∧ i.result? = some id
  /-- Slots are made in the first block, before anything else is done. -/
  slots_first : ∀ (b : Nat) (block : Block), f.blocks[b]? = some block →
    ∀ (k : Nat) (id : Nat) (ty : Ty), block.instrs[k]? = some (.alloca id ty) →
      b = 0 ∧ ∀ (j : Nat) (i : Instr), j < k → block.instrs[j]? = some i → i.isAlloca = true
  /-- No branch leads to the first block or to one that was opened behind a terminator. -/
  targets : ∀ block ∈ f.blocks.toList, ∀ t, block.terminator = some t → ∀ b ∈ t.successors,
    b ≠ 0 ∧ ∃ label, f.label? b = some label ∧ ¬ DeadLabel label
  /-- On every path, a definition comes before its uses. -/
  dominated : ∀ done b block, f.Reaches done b → f.blocks[b]? = some block →
    ∀ k id ty, .result id ty ∈ block.usedAt k →
      ∃ i ∈ done ++ block.instrs.toList.take k, i.result? = some id

variable {m : Module} {f : Func} {b : Nat} {block : Block}

/-- Behind the start of the first block, all of it has been executed. -/
theorem Func.Reaches.entry_done {done : List Instr} (path : f.Reaches done b)
    (first : f.blocks[0]? = some block) :
    b = 0 ∧ done = [] ∨ ∀ i ∈ block.instrs.toList, i ∈ done := by
  induction path with
  | entry => exact .inl ⟨rfl, rfl⟩
  | step path found ends edge ih =>
    right
    intro i member
    rcases ih with ⟨rfl, rfl⟩ | before
    · have same := Option.some.inj (first.symm.trans found)
      exact List.mem_append_right _ (same ▸ member)
    · exact List.mem_append_left _ (before i member)

/-! ## Positions in a block -/

/-- The instruction at a position is a slot, or stands in the code. -/
theorem Block.getElem?_instrs (block : Block) (k : Nat) :
    block.instrs[k]? =
      if k < block.slots.length then block.slots[k]? else block.code[k - block.slots.length]? := by
  rw [← Array.getElem?_toList, ← block.slots_append_code, List.getElem?_append]

/-- What an instruction of the code sees before it stands at earlier positions. -/
theorem Block.exists_before {before behind : List Instr} {i : Instr} {k : Nat}
    (split : block.code = before ++ behind) (member : i ∈ before)
    (position : block.slots.length + before.length ≤ k) : ∃ j < k, block.instrs[j]? = some i := by
  obtain ⟨j, bound, found⟩ := List.getElem_of_mem member
  refine ⟨block.slots.length + j, by omega, ?_⟩
  rw [getElem?_instrs, if_neg (by omega), Nat.add_sub_cancel_left, split,
    List.getElem?_append_left bound, List.getElem?_eq_getElem bound, found]

namespace Func.Sound

variable (sound : f.Sound m) (found : f.blocks[b]? = some block)

include sound found

/-- Behind what a use stands. -/
theorem usedAt {k : Nat} {v : Value} (used : v ∈ block.usedAt k) :
    ∃ before behind, block.code = before ++ behind ∧ k = block.slots.length + before.length ∧
      (v.Usable m f before ∨ ∃ id ty, v = .result id .ptr ∧ f.HasSlot id ty) := by
  have size : block.instrs.size = block.slots.length + block.code.length := by
    rw [← Array.length_toList, ← block.slots_append_code, List.length_append]
  rw [Block.usedAt] at used
  cases at_k : block.instrs[k]? with
  | some i =>
    rw [at_k] at used
    rw [Block.getElem?_instrs] at at_k
    split at at_k
    · -- slots use nothing
      have alloca := Block.isAlloca_of_mem_slots (List.mem_of_getElem? at_k)
      cases i with
      | alloca _ _ => cases used
      | _ => cases alloca
    -- the code is cut in front of the instruction
    · obtain ⟨bound, value⟩ := List.getElem?_eq_some_iff.mp at_k
      have split : block.code = block.code.take (k - block.slots.length) ++
          i :: block.code.drop (k - block.slots.length + 1) := by
        rw [← value, List.getElem_cons_drop, List.take_append_drop]
      have fits := sound.code b _ i _ ((Func.code_eq found).trans split)
      exact ⟨_, _, split, by rw [List.length_take]; omega, fits.operand used⟩
  | none =>
    rw [at_k] at used
    dsimp only at used
    split at used
    -- the terminator stands behind all of the code
    · rename_i last
      refine ⟨block.code, [], by simp, by omega, .inl ?_⟩
      cases ends : block.terminator with
      | none => simp [ends] at used
      | some t =>
        have member : v ∈ t.operands := by simpa [ends] using used
        have fits := sound.terminators b t ((Func.terminator?_eq found).trans ends)
        rw [Func.code_eq found] at fits
        exact fits.operand member
    · cases used

theorem slots_first {k id : Nat} {ty : Ty} (slot : block.instrs[k]? = some (.alloca id ty)) :
    b = 0 ∧ ∀ (j : Nat) (i : Instr), j < k → block.instrs[j]? = some i → i.isAlloca = true := by
  have inSlots : k < block.slots.length := by
    -- an `alloca` in the code would not be sound
    refine Decidable.byContradiction fun outside => ?_
    rw [Block.getElem?_instrs, if_neg outside] at slot
    obtain ⟨before, behind, split⟩ := List.append_of_mem (List.mem_of_getElem? slot)
    exact sound.code b before _ behind ((Func.code_eq found).trans split)
  constructor
  · refine Decidable.byContradiction fun notEntry => ?_
    have none := sound.entry b notEntry
    rw [Func.slots_eq found] at none
    rw [none] at inSlots
    cases inSlots
  · intro j i earlier at_j
    rw [Block.getElem?_instrs, if_pos (Nat.lt_trans earlier inSlots)] at at_j
    exact Block.isAlloca_of_mem_slots (List.mem_of_getElem? at_j)

/-- A definition comes before its uses, on every path. -/
theorem dominated {done : List Instr} (path : f.Reaches done b) {k id : Nat} {ty : Ty}
    (used : .result id ty ∈ block.usedAt k) :
    ∃ i ∈ done ++ block.instrs.toList.take k, i.result? = some id := by
  obtain ⟨before, behind, split, position, use⟩ := sound.usedAt found used
  rcases use with usable | ⟨slot, slotType, same, made⟩
  · cases usable with
    -- a local is defined earlier in the same block
    | result member defines _ _ =>
      obtain ⟨j, earlier, at_j⟩ := Block.exists_before split member (Nat.le_of_eq position.symm)
      refine ⟨_, List.mem_append_right _ ?_, defines⟩
      rw [← Array.getElem?_toList] at at_j
      exact List.mem_take_iff_getElem.mpr (by
        obtain ⟨bound, value⟩ := List.getElem?_eq_some_iff.mp at_j
        exact ⟨j, by omega, value⟩)
  · cases same
    refine ⟨.alloca id slotType, ?_, rfl⟩
    rcases Nat.eq_zero_or_pos b with entry | later
    · -- in the first block, the slots stand before the code
      subst entry
      rw [Func.HasSlot, Func.slots_eq found] at made
      rw [← block.slots_append_code, position, List.take_length_add_append]
      exact List.mem_append_right _ (List.mem_append_left _ made)
    · have first : 0 < f.blocks.size :=
        Nat.lt_of_le_of_lt (Nat.zero_le b) (Array.getElem?_eq_some_iff.mp found).1
      -- any other block is reached through the whole of the first one
      rcases path.entry_done (Array.getElem?_eq_getElem first) with ⟨here, _⟩ | all
      · exact absurd here (Nat.ne_of_gt later)
      · rw [Func.HasSlot, Func.slots_eq (Array.getElem?_eq_getElem first)] at made
        refine List.mem_append_left _ (all _ ?_)
        rw [← Block.slots_append_code]
        exact List.mem_append_left _ made

omit found

theorem inSsaForm : f.InSsaForm where
  defined_once := sound.nodup
  used_in_block block member k id ty used := by
    obtain ⟨b, found⟩ := Array.getElem?_of_mem (Array.mem_toList_iff.mp member)
    obtain ⟨before, behind, split, position, use⟩ := sound.usedAt found used
    rcases use with usable | ⟨slot, slotType, same, made⟩
    · cases usable with
      | result member defines _ _ =>
        obtain ⟨j, earlier, at_j⟩ := Block.exists_before split member (Nat.le_of_eq position.symm)
        exact .inr ⟨j, _, earlier, at_j, defines⟩
    · cases same
      exact .inl ⟨slotType, Func.mem_instrs.mpr ⟨0, .inl made⟩⟩
  slots_first b block found k id ty slot := sound.slots_first found slot
  targets block member t ends b edge := by
    obtain ⟨k, found⟩ := Array.getElem?_of_mem (Array.mem_toList_iff.mp member)
    exact (sound.terminators k t (by rw [Func.terminator?_eq found, ends])).target edge
  dominated done b block path found k id ty used := sound.dominated found path used

end Func.Sound

end ImpCompiler.Ssa
