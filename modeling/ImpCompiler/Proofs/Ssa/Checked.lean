import ImpCompiler.Proofs.Ssa.Sound
import ImpCompiler.Proofs.Ssa.WellFormed

/-! # The check of sound modules

Soundness says more about operands and instructions than the check asks for, and nothing about
missing terminators and the types of returned values.  So a sound function is well formed just when it
is written to its end and none of its returns is bad (`Func.Sound.wellFormed_iff`), and in a sound
module that is written to its end, the check finds nothing wrong but a bad return:
`Module.Sound.check_eq_ok_iff`. -/

namespace ImpCompiler.Ssa

variable {m : Module} {f : Func} {defs : Definitions} {before : List Instr}

/-! ## Operands -/

theorem Value.Usable.valid {v : Value} (usable : v.Usable m f before)
    (inside : ∀ i ∈ before, i ∈ f.instrs) : v.Valid m f := by
  cases usable with
  | constInt int => exact .constInt int
  | constFloat => exact .constFloat
  | global found => exact .global (Array.getElem?_eq_some_iff.mp found).1
  | param found _ => exact .param found
  | result member defines found _ =>
    exact .result found (Func.mem_results.mpr ⟨_, inside _ member, defines⟩)

theorem slot_mem_instrs {id : Nat} {ty : Ty} (slot : f.HasSlot id ty) : .alloca id ty ∈ f.instrs :=
  Func.mem_instrs.mpr ⟨0, .inl slot⟩

theorem Func.Sound.valid_slot (sound : f.Sound m) {id : Nat} {ty : Ty} (slot : f.HasSlot id ty) :
    (Value.result id .ptr).Valid m f := by
  obtain ⟨_, _, same, _, l, found, address⟩ := sound.slots _ slot
  cases same
  exact address ▸ .result found (Func.mem_results.mpr ⟨_, slot_mem_instrs slot, rfl⟩)

/-- A terminator uses values that can be used behind the code of its block. -/
theorem Terminator.Sound.operand {t : Terminator} (sound : t.Sound m f before) {v : Value}
    (member : v ∈ t.operands) : v.Usable m f before := by
  cases t with
  | ret value =>
    cases value with
    | none => cases member
    | some w =>
      rw [List.mem_singleton.mp member]
      exact sound
  | branch target => cases member
  | condBranch condition yes no =>
    rw [List.mem_singleton.mp member]
    exact sound.1

/-! ## Instructions -/

theorem Instr.Sound.typed (sound : f.Sound m) {i : Instr} (fits : i.Sound m f before) :
    i.Typed m f := by
  cases i with
  | alloca _ _ => exact fits.elim
  | load _ _ ptr =>
    obtain ⟨id, ty, rfl, made⟩ := fits
    rfl
  | store value ptr =>
    obtain ⟨_, id, rfl, made⟩ := fits
    refine ⟨rfl, fun id' ty slotType same member => ?_⟩
    cases same
    -- the slot is made once, so it has one type
    have one := Func.eq_of_result? sound.bound sound.nodup (slot_mem_instrs made) member rfl rfl
    cases one
    rfl
  | binary _ op lhs rhs =>
    obtain ⟨_, _, same, numeric⟩ := fits
    refine ⟨same, ?_⟩
    split
    · rename_i float
      rw [if_pos float] at numeric
      exact Ty.isFloat_eq_true_iff.mp numeric
    · rename_i int
      rwa [if_neg int] at numeric
  | icmp _ test lhs rhs =>
    obtain ⟨_, _, same, int⟩ := fits
    exact ⟨same, int⟩
  | fcmp _ test lhs rhs =>
    obtain ⟨_, _, left, right⟩ := fits
    exact ⟨left, right⟩
  | fneg _ operand => exact fits.2
  | zext _ operand ty => exact fits.2
  | call result callee args => exact fits.2

theorem Func.Sound.instr (sound : f.Sound m) {i : Instr} (member : i ∈ f.instrs) :
    (∀ v ∈ i.operands, v.Valid m f) ∧ i.Typed m f := by
  obtain ⟨b, slot | code⟩ := Func.mem_instrs.mp member
  · -- slots stand in the first block only
    by_cases entry : b = 0
    · subst entry
      obtain ⟨id, ty, rfl, nonvoid, _⟩ := sound.slots i slot
      exact ⟨fun v used => absurd used List.not_mem_nil, nonvoid⟩
    · rw [sound.entry b entry] at slot
      cases slot
  · obtain ⟨before, behind, split⟩ := List.append_of_mem code
    have fits := sound.code b before i behind split
    -- what stands before an instruction is defined in the function
    have inside : ∀ j ∈ before, j ∈ f.instrs := fun j earlier =>
      Func.mem_instrs.mpr ⟨b, .inr (split ▸ List.mem_append_left _ earlier)⟩
    refine ⟨fun v used => ?_, fits.typed sound⟩
    rcases fits.operand used with usable | ⟨id, ty, rfl, made⟩
    · exact usable.valid inside
    · exact sound.valid_slot made

theorem checkInstrs_eq_ok (sound : f.Sound m) (lists : defs.Lists f) {block : Block}
    (member : block ∈ f.blocks.toList) :
    block.instrs.toList.forM (checkInstr m f defs block.label) = .ok () := by
  refine forM_eq_ok.mpr fun i inside => (checkInstr_eq_ok_iff lists).mpr (sound.instr ?_)
  exact List.mem_flatMap.mpr ⟨block, member, inside⟩

/-! ## Terminators -/

theorem checkTargets_eq_ok {label : String} {t : Terminator} (fits : t.Sound m f before) :
    t.successors.forM (checkTarget f label) = .ok () :=
  forM_eq_ok.mpr fun _ member => checkTarget_eq_ok_iff.mpr (fits.target member).lt_size

theorem Terminator.Sound.typed_iff (number : f.returnType = .i32) {t : Terminator}
    (fits : t.Sound m f before) : t.Typed f ↔ ¬ t.BadReturn := by
  cases t with
  | ret value =>
    cases value with
    | none => simp [Terminator.Typed, Terminator.BadReturn, number]
    | some v => simp [Terminator.Typed, Terminator.BadReturn, number]
  | branch target => exact iff_of_true fits.lt_size id
  | condBranch condition yes no =>
    obtain ⟨_, typed, whenTrue, whenFalse⟩ := fits
    exact iff_of_true ⟨typed, whenTrue.lt_size, whenFalse.lt_size⟩ id

/-- What is left to see about the terminator of a block. -/
theorem Func.Sound.terminator_iff (sound : f.Sound m) (number : f.returnType = .i32) {b : Nat}
    {t : Terminator} (ends : f.terminator? b = some t) :
    ((∀ v ∈ t.operands, v.Valid m f) ∧ t.Typed f) ↔ ¬ t.BadReturn := by
  have fits := sound.terminators b t ends
  rw [fits.typed_iff number, and_iff_right_iff_imp]
  exact fun _ v used => (fits.operand used).valid fun i member =>
    Func.mem_instrs.mpr ⟨b, .inr member⟩

/-! ## Functions and modules -/

theorem Func.Sound.wellFormed_iff (sound : f.Sound m) (number : f.returnType = .i32) :
    f.WellFormed m ↔ f.Finished ∧ ¬ f.BadReturn := by
  constructor
  · intro wellFormed
    constructor
    · intro b open_
      have found := Array.getElem?_eq_getElem open_.1
      obtain ⟨t, ends, _⟩ := wellFormed.blocks _ (Array.mem_of_getElem? found)
      rw [← Func.terminator?_eq found, open_.2] at ends
      cases ends
    · rintro ⟨b, t, ends, bad⟩
      have found := Array.getElem?_eq_getElem (lt_size_of_terminator? ends)
      obtain ⟨t', ends', fits⟩ := wellFormed.blocks _ (Array.mem_of_getElem? found)
      rw [← Func.terminator?_eq found, ends] at ends'
      cases ends'
      exact (sound.terminator_iff number ends).mp fits bad
  · rintro ⟨finished, good⟩
    refine ⟨sound.bound, sound.nodup, fun i member => sound.instr member, fun block member => ?_⟩
    obtain ⟨b, found⟩ := Array.getElem?_of_mem member
    cases ends : f.terminator? b with
    | none => exact absurd ⟨(Array.getElem?_eq_some_iff.mp found).1, ends⟩ (finished b)
    | some t =>
      refine ⟨t, (Func.terminator?_eq found).symm.trans ends, ?_⟩
      exact (sound.terminator_iff number ends).mpr fun bad => good ⟨b, t, ends, bad⟩

theorem Func.Sound.checkFunc_eq_ok_iff (sound : f.Sound m)
    (returns : f.returnType = .i32 ∨ f.returnType = .void ∧ f.blocks.size = 0)
    (finished : f.Finished) : checkFunc m f = .ok () ↔ ¬ f.BadReturn := by
  rw [Ssa.checkFunc_eq_ok_iff]
  by_cases empty : f.blocks.size = 0
  · have good : ¬ f.BadReturn := by
      rintro ⟨b, t, ends, _⟩
      exact absurd (lt_size_of_terminator? ends) (by omega)
    exact iff_of_true (fun body => absurd empty (Nat.ne_of_gt body)) good
  · have number := returns.resolve_right fun void => empty void.2
    rw [imp_iff_right (Nat.pos_of_ne_zero empty), sound.wellFormed_iff number,
      and_iff_right finished]

/-- In a sound module that is written to its end, bad returns are all that the check finds. -/
theorem Module.Sound.check_eq_ok_iff (sound : m.Sound)
    (finished : ∀ (id : Nat) (f : Func), m.functions[id]? = some f → f.Finished) :
    m.check = .ok () ↔ ¬ m.BadReturn := by
  have each : ∀ (id : Nat) (f : Func), m.functions[id]? = some f →
      (checkFunc m f = .ok () ↔ ¬ f.BadReturn) := fun id f found =>
    (sound.functions id f found).checkFunc_eq_ok_iff (sound.returns id f found)
      (finished id f found)
  rw [Module.check, checkFuncs_eq_ok_iff]
  constructor
  · rintro ⟨_, all⟩ ⟨id, f, found, bad⟩
    have member := Array.mem_toList_iff.mpr (Array.mem_of_getElem? found)
    exact (each id f found).mp (all f member).2 bad
  · intro good
    refine ⟨sound.names, fun f member => ⟨List.not_mem_nil, ?_⟩⟩
    obtain ⟨id, found⟩ := Array.getElem?_of_mem (Array.mem_toList_iff.mp member)
    exact (each id f found).mpr fun bad => good ⟨id, f, found, bad⟩

end ImpCompiler.Ssa
