import ImpCompiler.Proofs.Ssa.Histories

/-! # What an emitter leaves alone

The insertion point of an emitter can be moved anywhere at any time, also back to a block that has
ended, and a slot is written to another block than the current one.  Still, nothing that has been
written is ever changed.  Functions, parameters, locals, labels and string constants stay what they
are.  A block can be edited in three ways only (`Block.Edit`): while it has no terminator, an
instruction is added at its end or the terminator is set; and a slot is put behind the slots at the front
of the first block of a function.

Every list of calls, from whatever emitter, changes a module in this way (`appendOnly_answers`).  So a block
that has ended keeps its terminator and what stands behind its slots, and all of its instructions
if it is not the first block. -/

namespace ImpCompiler.Ssa

/-! ## Edits of a block -/

/-- How the block with the number `k` may change. -/
inductive Block.Edit (k : Nat) (b : Block) : Block → Prop
  | append {i : Instr} (unfinished : b.terminator = none) (plain : i.isAlloca = false) :
      Edit k b { b with instrs := b.instrs.push i }
  | slot (result : Nat) (ty : Ty) (first : k = 0) :
      Edit k b { b with instrs := (b.slots ++ .alloca result ty :: b.code).toArray }
  | terminate (unfinished : b.terminator = none) (t : Terminator) :
      Edit k b { b with terminator := some t }

abbrev Block.Edits (k : Nat) : Block → Block → Prop :=
  Relation.ReflTransGen (Block.Edit k)

namespace Block

variable {k : Nat} {b B : Block}

theorem pushSlot_eq (b : Block) (i : Instr) :
    b.pushSlot i = { b with instrs := (b.slots ++ i :: b.code).toArray } := by
  have instrs : (b.pushSlot i).instrs = (b.slots ++ i :: b.code).toArray := by
    rw [← toList_pushSlot]
  rw [← instrs]
  rfl

theorem Edit.label (edit : b.Edit k B) : B.label = b.label := by
  cases edit with
  | append _ _ => rfl
  | slot _ _ _ => rfl
  | terminate _ _ => rfl

/-- A block that has ended gets slots at most, and none if it is not the first one. -/
theorem Edit.of_isTerminated (edit : b.Edit k B) (ended : b.isTerminated = true) :
    k = 0 ∧ B.terminator = b.terminator ∧ B.code = b.code := by
  cases edit with
  | append unfinished _ => simp [isTerminated, unfinished] at ended
  | slot result ty first =>
    rw [← pushSlot_eq]
    exact ⟨first, rfl, code_pushSlot rfl b⟩
  | terminate unfinished _ => simp [isTerminated, unfinished] at ended

theorem Edits.of_isTerminated (edits : Edits k b B) (ended : b.isTerminated = true) :
    B.terminator = b.terminator ∧ B.code = b.code ∧ (k ≠ 0 → B = b) := by
  induction edits with
  | refl => exact ⟨rfl, rfl, fun _ => rfl⟩
  | @tail C D _ edit ih =>
    obtain ⟨terminator, code, _⟩ := ih
    -- the terminator is still the old one, so the block in the middle has ended too
    have ended' : C.isTerminated = true := by rwa [isTerminated, terminator]
    obtain ⟨first, terminator', code'⟩ := edit.of_isTerminated ended'
    exact ⟨terminator'.trans terminator, code'.trans code, fun later => absurd first later⟩

end Block

/-! ## Functions -/

theorem getElem?_ne_some_of_size_le {α : Type} {xs : Array α} {k : Nat} (beyond : xs.size ≤ k) (x : α) :
    xs[k]? ≠ some x := by
  rw [Array.getElem?_eq_none beyond]
  exact (Option.some_ne_none x).symm

/-- `F` is `f` with more in it: what was there is still there, under the same number. -/
structure Func.AppendOnly (f F : Func) : Prop where
  name : F.name = f.name
  params : F.params = f.params
  returnType : F.returnType = f.returnType
  locals : ∀ (id : Nat) (l : Local), f.locals[id]? = some l → F.locals[id]? = some l
  blocks : ∀ (k : Nat) (b : Block), f.blocks[k]? = some b →
    ∃ B, F.blocks[k]? = some B ∧ B.label = b.label ∧ Block.Edits k b B
  /-- New blocks are written from nothing on. -/
  new : ∀ (k : Nat) (B : Block), f.blocks.size ≤ k → F.blocks[k]? = some B →
    Block.Edits k (.empty B.label) B

namespace Func.AppendOnly

variable {f g F : Func}

theorem refl (f : Func) : f.AppendOnly f where
  name := rfl
  params := rfl
  returnType := rfl
  locals _ _ found := found
  blocks _ b found := ⟨b, found, rfl, .refl⟩
  new _ B beyond found := absurd found (getElem?_ne_some_of_size_le beyond B)

theorem trans (first : f.AppendOnly g) (second : g.AppendOnly F) : f.AppendOnly F where
  name := second.name.trans first.name
  params := second.params.trans first.params
  returnType := second.returnType.trans first.returnType
  locals id l found := second.locals id l (first.locals id l found)
  blocks k b found := by
    obtain ⟨c, found', same, edits⟩ := first.blocks k b found
    obtain ⟨B, found'', same', edits'⟩ := second.blocks k c found'
    exact ⟨B, found'', same'.trans same, edits.trans edits'⟩
  new k B beyond found := by
    -- the block may have been added by the first change, and written further by the second
    cases middle : g.blocks[k]? with
    | none => exact second.new k B (Array.getElem?_eq_none_iff.mp middle) found
    | some c =>
      obtain ⟨B', found', same, edits⟩ := second.blocks k c middle
      cases found.symm.trans found'
      rw [same]
      exact (first.new k c beyond middle).trans edits

/-- Nothing new in the blocks. -/
theorem of_blocks (later : f.Extends F) (same : F.blocks = f.blocks) : f.AppendOnly F where
  name := later.name
  params := later.params
  returnType := later.returnType
  locals := later.locals
  blocks k b found := ⟨b, same ▸ found, rfl, .refl⟩
  new _ B beyond found := by
    rw [same] at found
    exact absurd found (getElem?_ne_some_of_size_le beyond B)

/-- One edit of one block. -/
theorem of_modify (later : f.Extends F) {j : Nat} {change : Block → Block}
    (changed : F.blocks = f.blocks.modify j change)
    (edit : ∀ b, f.blocks[j]? = some b → Block.Edit j b (change b)) : f.AppendOnly F where
  name := later.name
  params := later.params
  returnType := later.returnType
  locals := later.locals
  blocks k b found := by
    rw [changed, Array.getElem?_modify]
    by_cases here : j = k
    · subst here
      rw [if_pos rfl, found]
      exact ⟨change b, rfl, (edit b found).label, .single (edit b found)⟩
    · rw [if_neg here]
      exact ⟨b, found, rfl, .refl⟩
  new k B beyond found := by
    have beyond' : F.blocks.size ≤ k := by rwa [changed, Array.size_modify]
    exact absurd found (getElem?_ne_some_of_size_le beyond' B)

theorem of_addBlock (f : Func) (label : String) : f.AppendOnly (f.addBlock label) where
  name := rfl
  params := rfl
  returnType := rfl
  locals _ _ found := found
  blocks k b found := by
    have bound := (Array.getElem?_eq_some_iff.mp found).1
    rw [blocks_addBlock, Array.getElem?_push, if_neg (Nat.ne_of_lt bound)]
    exact ⟨b, found, rfl, .refl⟩
  new k B beyond found := by
    rw [blocks_addBlock, Array.getElem?_push] at found
    split at found
    · cases found
      exact .refl
    · exact absurd found (getElem?_ne_some_of_size_le beyond B)

end Func.AppendOnly

theorem Func.IsOpen.terminator {f : Func} {k : Nat} (open_ : f.IsOpen k) {b : Block}
    (found : f.blocks[k]? = some b) : b.terminator = none :=
  (Func.terminator?_eq found).symm.trans open_.2

theorem Func.Step.appendOnly {m : Module} {f F : Func} (step : f.Step m F) : f.AppendOnly F := by
  have later := step.extends
  cases step with
  | addBlock label => exact .of_addBlock f label
  | reserve name _ => exact .of_blocks later rfl
  | slot name ty _ =>
    refine .of_modify later (blocks_insertSlot _ _) fun b _ => ?_
    rw [Block.pushSlot_eq]
    exact .slot _ _ rfl
  | push open_ plain _ =>
    exact .of_modify later (blocks_pushInstr _ _ _) fun b found => .append (open_.terminator found) plain
  | pushResult name open_ plain _ _ =>
    exact .of_modify later (blocks_pushInstr _ _ _) fun b found => .append (open_.terminator found) plain
  | terminate open_ t =>
    exact .of_modify later (blocks_terminate _ _ _) fun b found => .terminate (open_.terminator found) t

/-! ## Modules -/

/-- `M` is `m` with more in it. -/
structure Module.AppendOnly (m M : Module) : Prop where
  name : M.name = m.name
  functions : ∀ (id : Nat) (f : Func), m.functions[id]? = some f →
    ∃ F, M.functions[id]? = some F ∧ f.AppendOnly F
  /-- New functions are written from their declaration on. -/
  new : ∀ (id : Nat) (F : Func), m.functions.size ≤ id → M.functions[id]? = some F →
    ∃ params, (Func.declare F.name params F.returnType).AppendOnly F
  globals : ∀ (id : Nat) (g : Global), m.globals[id]? = some g → M.globals[id]? = some g

namespace Module.AppendOnly

variable {m n M : Module}

theorem refl (m : Module) : m.AppendOnly m where
  name := rfl
  functions _ f found := ⟨f, found, .refl f⟩
  new _ F beyond found := absurd found (getElem?_ne_some_of_size_le beyond F)
  globals _ _ found := found

theorem trans (first : m.AppendOnly n) (second : n.AppendOnly M) : m.AppendOnly M where
  name := second.name.trans first.name
  functions id f found := by
    obtain ⟨g, found', grown⟩ := first.functions id f found
    obtain ⟨F, found'', grown'⟩ := second.functions id g found'
    exact ⟨F, found'', grown.trans grown'⟩
  new id F beyond found := by
    cases middle : n.functions[id]? with
    | none => exact second.new id F (Array.getElem?_eq_none_iff.mp middle) found
    | some g =>
      obtain ⟨F', found', grown⟩ := second.functions id g middle
      cases found.symm.trans found'
      obtain ⟨params, declared⟩ := first.new id g beyond middle
      rw [grown.name, grown.returnType]
      exact ⟨params, declared.trans grown⟩
  globals id g found := second.globals id g (first.globals id g found)

end Module.AppendOnly

theorem Module.Step.appendOnly {m M : Module} (step : m.Step M) : m.AppendOnly M := by
  have later := step.extends
  cases step with
  | addFunction name params returnType =>
    refine ⟨rfl, fun id f found => ?_, fun id F beyond found => ?_, later.globals⟩
    · have bound := (Array.getElem?_eq_some_iff.mp found).1
      rw [Module.addFunction, Array.getElem?_push, if_neg (Nat.ne_of_lt bound)]
      exact ⟨f, found, .refl f⟩
    · rw [Module.addFunction, Array.getElem?_push] at found
      split at found
      · cases found
        exact ⟨params, .refl _⟩
      · exact absurd found (getElem?_ne_some_of_size_le beyond F)
  | addGlobal bytes =>
    refine ⟨rfl, fun id f found => ⟨f, found, .refl f⟩, fun id F beyond found => ?_, later.globals⟩
    exact absurd found (getElem?_ne_some_of_size_le beyond F)
  | @change id f F found step =>
    refine ⟨rfl, fun k g found' => ?_, fun k G beyond found' => ?_, later.globals⟩
    · by_cases here : k = id
      · subst here
        cases found.symm.trans found'
        exact ⟨F, (getElem?_setFunction found).mpr (.inl ⟨rfl, rfl⟩), step.appendOnly⟩
      · exact ⟨g, (getElem?_setFunction found).mpr (.inr ⟨here, found'⟩), .refl g⟩
    · -- a function that is written to is an old one
      have beyond' : (m.functions.setIfInBounds id F).size ≤ k := by rwa [Array.size_setIfInBounds]
      exact absurd found' (getElem?_ne_some_of_size_le beyond' G)

/-- Blocks that have ended are final: they keep the terminator and what stands behind the slots, and if
    they are not the first one of their function, nothing of them changes at all. -/
def Module.KeepsEnded (m M : Module) : Prop :=
  ∀ (id k : Nat) (f F : Func) (b : Block), m.functions[id]? = some f → M.functions[id]? = some F →
    f.blocks[k]? = some b → b.isTerminated = true →
      ∃ B, F.blocks[k]? = some B ∧ B.terminator = b.terminator ∧ B.code = b.code ∧ (k ≠ 0 → B = b)

theorem Module.AppendOnly.keepsEnded {m M : Module} (grown : m.AppendOnly M) : m.KeepsEnded M := by
  intro id k f F b found later inside ended
  obtain ⟨F', found', grown⟩ := grown.functions id f found
  cases later.symm.trans found'
  obtain ⟨B, inside', _, edits⟩ := grown.blocks k b inside
  exact ⟨B, inside', edits.of_isTerminated ended⟩

theorem Module.Steps.appendOnly {m M : Module} (steps : m.Steps M) : m.AppendOnly M := by
  induction steps with
  | refl => exact .refl m
  | tail _ step ih => exact ih.trans step.appendOnly

/-- Whatever is called, and wherever the insertion point is, a module only gets more. -/
theorem appendOnly_answers (e : Emitter) (requests : List Request) :
    e.module.AppendOnly (e.answers requests).module ∧ e.module.KeepsEnded (e.answers requests).module := by
  have grown := (e.steps_answers requests).appendOnly
  exact ⟨grown, grown.keepsEnded⟩

end ImpCompiler.Ssa
