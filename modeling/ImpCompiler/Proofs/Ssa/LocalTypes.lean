import Mathlib.Data.List.Nodup
import ImpCompiler.Proofs.Ssa.Histories
import ImpCompiler.Proofs.Ssa.WellFormed

/-! # The types of locals

A function has a table of its locals with their types, and an instruction that defines a local yields
a value of some type.  The check compares each use of a local with the table, and it sees to it that
the local is defined; it does not compare the table with the definition.  So a module that passes may
use an address as a number (`check_accepts_address_as_number`).

An emitter makes the entry of the table and the instruction at once.  In a module that was written
by one, whatever was called and in whatever order, the table and the definitions agree
(`Module.Emitted.recorded`), and what passes the check is typed consistently
(`consistent_of_check`). -/

namespace ImpCompiler.Ssa

variable {m M : Module} {f F : Func}

/-! ## The table and the definitions -/

/-- Each local that is defined has the type that its definition yields. -/
def Func.Recorded (m : Module) (f : Func) : Prop :=
  ∀ i ∈ f.instrs, ∀ id, i.result? = some id →
    ∃ l, f.locals[id]? = some l ∧ i.yields? m = some l.ty

/-- Old definitions keep their types, so only the new instructions have to be looked at. -/
theorem Func.Recorded.grow (recorded : f.Recorded m) (later : f.Extends F)
    (new : ∀ i ∈ F.instrs, i ∈ f.instrs ∨ ∀ id, i.result? = some id →
      ∃ l, F.locals[id]? = some l ∧ i.yields? m = some l.ty) : F.Recorded m := by
  intro i member id defines
  rcases new i member with old | fits
  · obtain ⟨l, found, yields⟩ := recorded i old id defines
    exact ⟨l, later.locals id l found, yields⟩
  · exact fits id defines

theorem Func.Recorded.mono (recorded : f.Recorded m) (later : m.Extends M) : f.Recorded M := by
  intro i member id defines
  obtain ⟨l, found, yields⟩ := recorded i member id defines
  exact ⟨l, found, Instr.yields?_mono later yields⟩

/-- What is written together with the entry of its result agrees with it. -/
theorem Func.agrees_addLocal {i : Instr} {name : String} {ty : Ty}
    (defines : i.result? = some f.locals.size) (yields : i.yields? m = some ty) :
    ∀ id, i.result? = some id →
      ∃ l, (f.addLocal name ty).locals[id]? = some l ∧ i.yields? m = some l.ty := by
  intro id defines'
  have same : f.locals.size = id := Option.some.inj (defines.symm.trans defines')
  subst same
  exact ⟨⟨(f.names.fresh name).1, ty⟩, by simp, yields⟩

theorem Func.Step.recorded (step : f.Step m F) (recorded : f.Recorded m) : F.Recorded m := by
  refine recorded.grow step.extends fun i member => ?_
  cases step with
  | addBlock label => exact .inl (by simpa using member)
  | reserve name _ => exact .inl member
  | slot name ty body =>
    have body' : 0 < (f.addLocal name .ptr).blocks.size := body
    rcases List.mem_cons.mp ((instrs_insertSlot body' _).mem_iff.mp member) with rfl | old
    · exact .inr (Func.agrees_addLocal rfl rfl)
    · exact .inl old
  | push open_ _ silent =>
    rcases List.mem_cons.mp ((instrs_pushInstr open_.1 _).mem_iff.mp member) with rfl | old
    · refine .inr fun id defines => ?_
      rw [silent] at defines
      cases defines
    · exact .inl old
  | @pushResult b j ty name open_ _ defines yields =>
    have bound : b < (f.addLocal name ty).blocks.size := open_.1
    rcases List.mem_cons.mp ((instrs_pushInstr bound _).mem_iff.mp member) with rfl | old
    · exact .inr (Func.agrees_addLocal defines yields)
    · exact .inl old
  | terminate _ t => exact .inl (by simpa using member)

/-- The table and the definitions agree in all functions. -/
def Module.Recorded (m : Module) : Prop :=
  ∀ (id : Nat) (f : Func), m.functions[id]? = some f → f.Recorded m

/-- The table and the definitions agree at every point of every history. -/
theorem Module.Emitted.recorded (emitted : m.Emitted) : m.Recorded := by
  refine Module.Emitted.functions (P := fun m f => f.Recorded m) ?_ Func.Step.recorded ?_ emitted
  · -- a function that is new has no instructions
    exact fun _ _ _ _ i member => absurd member List.not_mem_nil
  · exact fun later recorded => recorded.mono later

/-! ## Uses -/

/-- The values that the instructions and the terminators of a function use. -/
def Func.operands (f : Func) : List Value :=
  f.blocks.toList.flatMap fun b =>
    b.instrs.toList.flatMap Instr.operands ++ (b.terminator.map Terminator.operands).getD []

theorem Func.WellFormed.valid (wellFormed : f.WellFormed m) {v : Value}
    (used : v ∈ f.operands) : v.Valid m f := by
  obtain ⟨b, inside, used⟩ := List.mem_flatMap.mp used
  rcases List.mem_append.mp used with operand | last
  · obtain ⟨i, member, operand⟩ := List.mem_flatMap.mp operand
    exact (wellFormed.instrs i (List.mem_flatMap.mpr ⟨b, inside, member⟩)).1 v operand
  · obtain ⟨t, ends, valid, _⟩ := wellFormed.blocks b (Array.mem_toList_iff.mp inside)
    rw [ends] at last
    exact valid v last

/-- A function that uses something has a body. -/
theorem Func.size_pos_of_mem_operands {v : Value} (used : v ∈ f.operands) : 0 < f.blocks.size := by
  obtain ⟨b, inside, _⟩ := List.mem_flatMap.mp used
  exact Array.size_pos_of_mem (Array.mem_toList_iff.mp inside)

/-- In a module that passes the check, a local that is used has one definition and is used with its
    type in the table; if the module was written by an emitter, that is the type that the
    definition yields. -/
theorem consistent_of_check {m : Module} (accepted : m.check = .ok ()) {f : Func}
    (member : f ∈ m.functions) {id : Nat} {ty : Ty} (used : .result id ty ∈ f.operands) :
    ∃ i l, (i ∈ f.instrs ∧ i.result? = some id) ∧ f.results.count id = 1 ∧
      f.locals[id]? = some l ∧ l.ty = ty ∧ (m.Emitted → i.yields? m = some l.ty) := by
  obtain ⟨_, passes⟩ := checkFuncs_eq_ok_iff.mp accepted
  have passed := (passes f (Array.mem_toList_iff.mpr member)).2
  have wellFormed := checkFunc_eq_ok_iff.mp passed (Func.size_pos_of_mem_operands used)
  cases wellFormed.valid used with
  | @result _ l found defined =>
    obtain ⟨i, inside, defines⟩ := Func.mem_results.mp defined
    have once := List.count_eq_one_of_mem wellFormed.once defined
    refine ⟨i, l, ⟨inside, defines⟩, once, found, rfl, fun emitted => ?_⟩
    -- the entry that the emitter made for the definition is the one that the check has compared with
    obtain ⟨k, found'⟩ := Array.getElem?_of_mem member
    obtain ⟨l', entry, yields⟩ := emitted.recorded k f found' i inside id defines
    rw [found] at entry
    cases entry
    exact yields

/-- A module of which half was written behind a return: the call there is used as a number, which is
    what the function that it calls returns. -/
theorem consistent_of_check_behindReturn :
    let requests : List Request := [
      .addFunction "main" [] .i32, .addFunction "twice" [⟨"n", .i32⟩] .i32, .appendBlock 0 "entry",
      .setPoint (some ⟨0, 0⟩), .ret (some (.i32 0)), .alloca .i32 "x",
      .store (.i32 1) (.result 0 .ptr), .load .i32 (.result 0 .ptr) "x",
      .call 1 [.result 1 .i32] "y", .icmp .slt (.result 2 .i32) (.i32 3) "less",
      .zext (.result 3 .i1) .i32 "wide", .ret (some (.result 4 .i32))]
    let m := ((Emitter.start "m").answers requests).module
    m.check = .ok () ∧ m.Emitted ∧ ∃ f ∈ m.functions, .result 2 .i32 ∈ f.operands ∧
      ∃ i l, (i ∈ f.instrs ∧ i.result? = some 2) ∧ f.results.count 2 = 1 ∧
        f.locals[2]? = some l ∧ l.ty = .i32 ∧ i.yields? m = some l.ty := by
  intro requests m
  have passes : m.check = .ok () := by decide +kernel
  have emitted : m.Emitted := ⟨"m", requests, rfl⟩
  have uses : m.functions[0]?.any (fun f => decide (.result 2 .i32 ∈ f.operands)) = true := by
    decide +kernel
  obtain ⟨f, found, uses⟩ := (Option.any_eq_true _ _).mp uses
  have member := Array.mem_of_getElem? found
  have used := of_decide_eq_true uses
  obtain ⟨i, l, defines, once, entry, ty, yields⟩ := consistent_of_check passes member used
  exact ⟨passes, emitted, f, member, used, i, l, defines, once, entry, ty, yields emitted⟩

/-- The table calls the slot a number, and so it can be returned as one. -/
theorem check_accepts_address_as_number :
    let f : Func := { Func.declare "main" [] .i32 with
      blocks := #[⟨"entry", #[.alloca 0 .i32], some (.ret (some (.result 0 .i32)))⟩]
      locals := #[⟨"x", .i32⟩] }
    let m : Module := ⟨"m", #[f], #[]⟩
    m.check = .ok () ∧ f ∈ m.functions ∧ .result 0 .i32 ∈ f.operands ∧
      (.alloca 0 .i32 ∈ f.instrs ∧ (Instr.alloca 0 .i32).result? = some 0) ∧
      f.locals[0]? = some ⟨"x", .i32⟩ ∧ (Instr.alloca 0 .i32).yields? m = some .ptr := by
  intro f m
  exact ⟨rfl, by simp [m], by decide, ⟨by decide, rfl⟩, rfl, rfl⟩

end ImpCompiler.Ssa
