import ImpCompiler.Proofs.Ssa.Cursor
import ImpCompiler.Proofs.Ssa.Paths

/-! # Slots are stored to before they are read

`Func.StoresFirst` says that on every path through a function a slot is stored to before it is
read.  It follows from knowing, for each block, slots that have been stored to whenever control
comes there (`Func.Initialises`): what is known at the end of a block is all that may be known at
the start of the next ones, and a load needs to know of its slot.

While a function is written, what is known at the cursor is `Cursor.Live`; of a block that has
ended, or that no branch leads to, anything may be said. -/

namespace ImpCompiler.Ssa

/-- On every path, a slot is stored to before it is read. -/
def Func.StoresFirst (f : Func) : Prop :=
  ∀ done b block, f.Reaches done b → f.blocks[b]? = some block →
    ∀ k result ty ptr, block.instrs[k]? = some (.load result ty ptr) →
      ∃ value, .store value ptr ∈ done ++ block.instrs.toList.take k

/-- One of the instructions stores to the slot. -/
def StoredIn (is : List Instr) (slot : Nat) : Prop :=
  ∃ value, .store value (.result slot .ptr) ∈ is

theorem StoredIn.mono {is js : List Instr} {slot : Nat} (stored : StoredIn is slot)
    (subset : ∀ i ∈ is, i ∈ js) : StoredIn js slot := by
  obtain ⟨value, member⟩ := stored
  exact ⟨value, subset _ member⟩

/-- At the start of a block `b`, the slots of which `known b` holds have been stored to. -/
structure Func.Initialises (f : Func) (known : Nat → Nat → Prop) : Prop where
  entry : ∀ slot, ¬ known 0 slot
  targets : ∀ b t target, f.terminator? b = some t → target ∈ t.successors → target < f.blocks.size
  edges : ∀ b t target slot, f.terminator? b = some t → target ∈ t.successors → known target slot →
    known b slot ∨ StoredIn (f.code b) slot
  loads : ∀ b k result ty slot, (f.code b)[k]? = some (.load result ty (.result slot .ptr)) →
    known b slot ∨ StoredIn ((f.code b).take k) slot

namespace Func.Initialises

variable {f F : Func} {known known' : Nat → Nat → Prop}

theorem storedIn (inits : f.Initialises known) {done : List Instr} {b slot : Nat}
    (path : f.Reaches done b) (holds : known b slot) : StoredIn done slot := by
  induction path with
  | entry => exact absurd holds (inits.entry slot)
  -- the last block on the path stores to the slot, or it was known at its start
  | @step done b target block t path found ends edge ih =>
    rw [← Func.terminator?_eq found] at ends
    cases inits.edges b t target slot ends edge holds with
    | inl before => exact (ih before).mono fun i member => List.mem_append_left _ member
    | inr stored =>
      apply stored.mono
      intro i member
      rw [Func.code_eq found] at member
      rw [← block.slots_append_code]
      exact List.mem_append_right _ (List.mem_append_right _ member)

theorem storesFirst (inits : f.Initialises known) {m : Module} (sound : f.Sound m) : f.StoresFirst := by
  intro done b block path found k result ty ptr load
  rw [Block.getElem?_instrs] at load
  split at load
  -- a load is no slot
  · cases Block.isAlloca_of_mem_slots (List.mem_of_getElem? load)
  · rename_i behindSlots
    rw [← Func.code_eq found] at load
    obtain ⟨before, behind, split⟩ := List.append_of_mem (List.mem_of_getElem? load)
    -- what it reads from is the address of a slot
    obtain ⟨slot, slotType, rfl, _⟩ := sound.code b before _ behind split
    have written : StoredIn (done ++ block.instrs.toList.take k) slot := by
      cases inits.loads b _ result ty slot load with
      | inl holds => exact (inits.storedIn path holds).mono fun i member => List.mem_append_left _ member
      | inr stored =>
        apply stored.mono
        intro i member
        have position : k = block.slots.length + (k - block.slots.length) := by omega
        rw [Func.code_eq found] at member
        rw [position, ← block.slots_append_code, List.take_length_add_append]
        exact List.mem_append_right _ (List.mem_append_right _ member)
    exact written

/-- A change that leaves code and terminators as they are. -/
theorem of_same (inits : f.Initialises known) (entry : 0 < f.blocks.size)
    (size : f.blocks.size ≤ F.blocks.size) (code : ∀ b, F.code b = f.code b)
    (terminators : ∀ b, F.terminator? b = f.terminator? b)
    (same : ∀ b, b < f.blocks.size → known' b = known b) : F.Initialises known' where
  entry := by
    rw [same 0 entry]
    exact inits.entry
  targets b t target ends edge := by
    rw [terminators] at ends
    exact Nat.lt_of_lt_of_le (inits.targets b t target ends edge) size
  edges b t target slot ends edge holds := by
    rw [terminators] at ends
    rw [same target (inits.targets b t target ends edge)] at holds
    rw [same b (Func.lt_size_of_terminator? ends), code]
    exact inits.edges b t target slot ends edge holds
  loads b k result ty slot load := by
    rw [code] at load ⊢
    cases Nat.lt_or_ge b f.blocks.size with
    | inl old =>
      rw [same b old]
      exact inits.loads b k result ty slot load
    | inr beyond =>
      rw [Func.code, Array.getElem?_eq_none beyond] at load
      cases load

end Func.Initialises

/-- What is known of the blocks up to `n`, and the same of all later ones. -/
def extendKnown (known : Nat → Nat → Prop) (n : Nat) (new : Nat → Prop) : Nat → Nat → Prop :=
  fun b slot => if b < n then known b slot else new slot

theorem extendKnown_old {known : Nat → Nat → Prop} {n b : Nat} (new : Nat → Prop) (old : b < n) :
    extendKnown known n new b = known b :=
  funext fun _ => if_pos old

theorem extendKnown_new {known : Nat → Nat → Prop} {n b : Nat} (new : Nat → Prop) (beyond : n ≤ b) :
    extendKnown known n new b = new :=
  funext fun _ => if_neg (Nat.not_lt.mpr beyond)

namespace Cursor

variable {c c' : Cursor} {known known' : Nat → Nat → Prop}

/-- The slots that have been stored to when control comes to the cursor, if it ever does. -/
def Live (c : Cursor) (known : Nat → Nat → Prop) (slot : Nat) : Prop :=
  c.IsOpen → known c.block slot ∨ StoredIn (c.func.code c.block) slot

/-- What was known stays known, and what was live is live. -/
structure Flows (c : Cursor) (known : Nat → Nat → Prop) (c' : Cursor) (known' : Nat → Nat → Prop) :
    Prop where
  same : ∀ b, b < c.func.blocks.size → known' b = known b
  live : ∀ slot, c.Live known slot → c'.Live known' slot

theorem Flows.trans {c'' : Cursor} {known'' : Nat → Nat → Prop} (first : c.Flows known c' known')
    (second : c'.Flows known' c'' known'') (size : c.func.blocks.size ≤ c'.func.blocks.size) :
    c.Flows known c'' known'' where
  same b old := (second.same b (Nat.lt_of_lt_of_le old size)).trans (first.same b old)
  live slot live := second.live slot (first.live slot live)

/-- The current block is written to, or has ended and new blocks are opened that no branch leads
    to. -/
theorem initialises_of_advances (inits : c.func.Initialises known)
    (inside : c.block < c.func.blocks.size) (later : c.func.Extends c'.func)
    (advances : c.Advances c') (targets : ∀ b t target, c'.func.terminator? b = some t →
      target ∈ t.successors → target < c'.func.blocks.size)
    (here : c'.func.terminator? c.block = c.func.terminator? c.block)
    (loads : ∀ k result ty slot, (c'.func.code c.block)[k]? = some (.load result ty (.result slot .ptr)) →
      (c.func.code c.block).length ≤ k → known c.block slot ∨ StoredIn (c.func.code c.block) slot) :
    c'.func.Initialises (extendKnown known c.func.blocks.size fun _ => True) where
  entry := by
    rw [extendKnown_old _ (Nat.zero_lt_of_lt inside)]
    exact inits.entry
  targets := targets
  edges b t target slot ends edge holds := by
    cases Nat.lt_or_ge b c.func.blocks.size with
    | inr beyond =>
      rw [extendKnown_new _ beyond]
      exact .inl trivial
    -- an edge that was there before
    | inl old =>
      have before : c.func.terminator? b = some t := by
        by_cases current : b = c.block
        · rw [current, ← here, ← current]
          exact ends
        · rw [← (advances.elsewhere b old current).2]
          exact ends
      rw [extendKnown_old _ (inits.targets b t target before edge)] at holds
      rw [extendKnown_old _ old, (later.terminated b t before).2]
      exact inits.edges b t target slot before edge holds
  loads b k result ty slot load := by
    cases Nat.lt_or_ge b c.func.blocks.size with
    | inr beyond =>
      rw [extendKnown_new _ beyond]
      exact .inl trivial
    | inl old =>
      rw [extendKnown_old _ old]
      obtain ⟨more, all⟩ := later.code b
      cases Nat.lt_or_ge k (c.func.code b).length with
      | inl early =>
        rw [← all, List.getElem?_append_left early] at load
        rw [← all, List.take_append_of_le_length (Nat.le_of_lt early)]
        exact inits.loads b k result ty slot load
      -- only the current block has new code
      | inr new =>
        by_cases current : b = c.block
        · subst current
          apply (loads k result ty slot load new).imp_right
          intro stored
          apply stored.mono
          intro i member
          rw [← all, List.take_append, List.take_of_length_le new]
          exact List.mem_append_left _ member
        · rw [(advances.elsewhere b old current).1] at load
          exact absurd (List.getElem?_eq_some_iff.mp load).1 (Nat.not_lt.mpr new)

/-- The current block ends; what is known at the targets has to be live. -/
theorem initialises_terminate (inits : c.func.Initialises known) (open_ : c.IsOpen) {t : Terminator}
    (targets : ∀ target ∈ t.successors, target < c.func.blocks.size ∧
      ∀ slot, known target slot → c.Live known slot) : (c.terminate t).func.Initialises known := by
  have size := (Cursor.extends_terminate open_.1 t).size
  have code : ∀ b, (c.terminate t).func.code b = c.func.code b := by simp [Cursor.terminate]
  -- an edge is one of the new terminator, or was there
  have ended : ∀ b t', (c.terminate t).func.terminator? b = some t' →
      b = c.block ∧ t' = t ∨ c.func.terminator? b = some t' := by
    intro b t' ends
    rw [terminator?_terminate open_.1, block_terminate open_] at ends
    split at ends
    · rename_i current
      exact .inl ⟨current, (Option.some.inj ends).symm⟩
    · exact .inr ends
  refine ⟨inits.entry, ?_, ?_, fun b k result ty slot load => ?_⟩
  · intro b t' target ends edge
    cases ended b t' ends with
    | inl new => exact Nat.lt_of_lt_of_le (targets target (new.2 ▸ edge)).1 size
    | inr old => exact Nat.lt_of_lt_of_le (inits.targets b t' target old edge) size
  · intro b t' target slot ends edge holds
    rw [code]
    cases ended b t' ends with
    | inl new =>
      obtain ⟨rfl, rfl⟩ := new
      exact (targets target edge).2 slot holds open_
    | inr old => exact inits.edges b t' target slot old edge holds
  · rw [code] at load ⊢
    exact inits.loads b k result ty slot load

theorem initialises_fork (inits : c.func.Initialises known) (open_ : c.IsOpen) (v : Value)
    {yes no : Nat} (next : Nat) (toYes : yes < c.func.blocks.size) (toNo : no < c.func.blocks.size)
    (liveYes : ∀ slot, known yes slot → c.Live known slot)
    (liveNo : ∀ slot, known no slot → c.Live known slot) :
    (c.fork v yes no next).func.Initialises known := by
  apply initialises_terminate inits open_
  intro target edge
  cases edge with
  | head => exact ⟨toYes, liveYes⟩
  | tail _ edge =>
    rw [List.mem_singleton.mp edge]
    exact ⟨toNo, liveNo⟩

/-- The current block ends, unless it has ended before. -/
theorem initialises_close (inits : c.func.Initialises known) (inside : c.block < c.func.blocks.size)
    {t : Terminator} (targets : ∀ target ∈ t.successors, target < c.func.blocks.size ∧
      ∀ slot, known target slot → c.Live known slot) : (c.close t).func.Initialises known := by
  rw [close]
  split
  · exact inits
  · rename_i open_
    exact initialises_terminate inits ⟨inside, by simpa using open_⟩ targets

theorem initialises_jump (inits : c.func.Initialises known) (inside : c.block < c.func.blocks.size)
    {target : Nat} (next : Nat) (toTarget : target < c.func.blocks.size)
    (live : ∀ slot, known target slot → c.Live known slot) :
    (c.jump target next).func.Initialises known := by
  apply initialises_close inits inside
  intro other edge
  rw [List.mem_singleton.mp edge]
  exact ⟨toTarget, live⟩

/-- At new blocks, what is live at the cursor is known. -/
theorem initialises_addBlocks (inits : c.func.Initialises known)
    (inside : c.block < c.func.blocks.size) (first second third : String) :
    (c.addBlocks first second third).func.Initialises
      (extendKnown known c.func.blocks.size (c.Live known)) := by
  apply inits.of_same (Nat.zero_lt_of_lt inside) (extends_addBlocks c first second third).size
  · simp
  · simp
  · exact fun b old => extendKnown_old _ old

end Cursor

end ImpCompiler.Ssa
