import ImpCompiler.Proofs.Ssa.LocalTypes

/-! # Single assignment by construction

An emitter gives every instruction with a result a local of its own, so no local is ever defined twice,
and the table of locals has the type of each.  Slots are put in front of everything else in the
first block, behind the slots that are there: they stand in the order in which they were asked for,
from whatever place in the function that was.

All this holds of every function at every point of every history (`singleAssignment_answers`). -/

namespace ImpCompiler.Ssa

variable {m M : Module} {f F : Func}

/-! ## Definitions -/

/-- No local is defined twice, and slots are made at the front of the first block only. -/
structure Func.Assigned (f : Func) : Prop where
  known : ∀ id ∈ f.results, id < f.locals.size
  once : f.results.Nodup
  entry : ∀ k, k ≠ 0 → f.slots k = []
  code : ∀ k, ∀ i ∈ f.code k, i.isAlloca = false

namespace Func.Assigned

/-- A change that neither writes an instruction nor adds a local. -/
theorem congr (assigned : f.Assigned) (instrs : F.instrs = f.instrs) (locals : F.locals = f.locals)
    (slots : ∀ k, F.slots k = f.slots k) (code : ∀ k, F.code k = f.code k) : F.Assigned where
  known := by
    rw [results, instrs, locals]
    exact assigned.known
  once := by
    rw [results, instrs]
    exact assigned.once
  entry k later := (slots k).trans (assigned.entry k later)
  code k i member := assigned.code k i (code k ▸ member)

theorem addLocal (assigned : f.Assigned) (name : String) (ty : Ty) : (f.addLocal name ty).Assigned where
  known id member := by simpa using Nat.lt_succ_of_lt (assigned.known id member)
  once := assigned.once
  entry := assigned.entry
  code := assigned.code

/-- The local that has just been added is without a definition. -/
theorem fresh (assigned : f.Assigned) (name : String) (ty : Ty) {i : Instr}
    (defines : i.result? = some f.locals.size) : ∀ id, i.result? = some id →
      id ∉ (f.addLocal name ty).results ∧ id < (f.addLocal name ty).locals.size := by
  intro id defines'
  cases defines.symm.trans defines'
  exact ⟨fun member => Nat.lt_irrefl _ (assigned.known _ member), by simp⟩

theorem pushInstr (assigned : f.Assigned) {b : Nat} {i : Instr} (open_ : f.IsOpen b)
    (plain : i.isAlloca = false)
    (fresh : ∀ id, i.result? = some id → id ∉ f.results ∧ id < f.locals.size) :
    (f.pushInstr b i).Assigned := by
  obtain ⟨once, known⟩ :=
    results_cons (instrs_pushInstr open_.1 i) rfl assigned.once assigned.known fresh
  refine ⟨known, once, fun k later => ?_, fun k j member => ?_⟩
  · rw [slots_pushInstr plain]
    exact assigned.entry k later
  · rw [code_pushInstr open_.1 plain] at member
    split at member
    · rcases List.mem_append.mp member with old | new
      · exact assigned.code k j old
      · exact List.mem_singleton.mp new ▸ plain
    · exact assigned.code k j member

theorem insertSlot (assigned : f.Assigned) (body : 0 < f.blocks.size) {i : Instr}
    (slot : i.isAlloca = true)
    (fresh : ∀ id, i.result? = some id → id ∉ f.results ∧ id < f.locals.size) :
    (f.insertSlot i).Assigned := by
  obtain ⟨once, known⟩ := results_cons (instrs_insertSlot body i) rfl assigned.once assigned.known fresh
  refine ⟨known, once, fun k later => ?_, fun k j member => ?_⟩
  · rw [slots_insertSlot body slot, if_neg later]
    exact assigned.entry k later
  · rw [code_insertSlot slot] at member
    exact assigned.code k j member

end Func.Assigned

theorem Func.Step.assigned (step : f.Step m F) (assigned : f.Assigned) : F.Assigned := by
  cases step with
  | addBlock label =>
    exact assigned.congr (instrs_addBlock f label) rfl (slots_addBlock f label) (code_addBlock f label)
  | reserve name _ => exact assigned.addLocal name .ptr
  | slot name ty body => exact (assigned.addLocal name .ptr).insertSlot body rfl (assigned.fresh name .ptr rfl)
  | push open_ plain silent =>
    refine assigned.pushInstr open_ plain fun id defines => ?_
    rw [silent] at defines
    cases defines
  | @pushResult b i ty name open_ plain defines _ =>
    exact (assigned.addLocal name ty).pushInstr open_ plain (assigned.fresh name ty defines)
  | @terminate b _ t =>
    exact assigned.congr (instrs_terminate f b t) rfl (slots_terminate f b t) (code_terminate f b t)

theorem Func.assigned_declare (name : String) (params : List Param) (returnType : Ty) :
    (Func.declare name params returnType).Assigned where
  known id member := absurd member List.not_mem_nil
  once := List.nodup_nil
  entry k _ := by simp [Func.slots, Func.declare]
  code k i member := by simp [Func.code, Func.declare] at member

/-! ## The order of slots -/

/-- The slots at the front of the function `id`, of which there are none if there is no such function. -/
def Module.slotsAt (m : Module) (id : Nat) : List Instr :=
  (m.functions[id]?.map fun f => f.slots 0).getD []

/-- The slot that a call makes in the function `id`, by the value that it gives back. -/
def Emitter.slotMade? (e : Emitter) (id : Nat) : Request → Option Instr
  | .alloca ty name =>
    match e.point, Emitter.alloca ty name e with
    | some point, .ok (.result result _) _ =>
      if point.function = id then some (.alloca result ty) else none
    | _, _ => none
  | _ => none

/-- The slots that a list of calls makes in the function `id`, in the order of the calls. -/
def Emitter.slotsMade (e : Emitter) (id : Nat) : List Request → List Instr
  | [] => []
  | request :: requests =>
    (e.slotMade? id request).toList ++ (e.answer request).slotsMade id requests

theorem Module.slotsAt_eq {id : Nat} (found : m.functions[id]? = some f) : m.slotsAt id = f.slots 0 := by
  rw [slotsAt, found]
  rfl

theorem Emitter.slotsAt_replace {e : Emitter} {id : Nat} (found : e.module.functions[id]? = some f)
    (F : Func) (k : Nat) :
    (e.replace id F).module.slotsAt k = if k = id then F.slots 0 else e.module.slotsAt k := by
  by_cases here : k = id
  · subst here
    rw [if_pos rfl, Module.slotsAt_eq (function_replace found F)]
  · rw [if_neg here, Module.slotsAt, replace, Array.getElem?_setIfInBounds_ne (Ne.symm here)]
    rfl

/-- A change that keeps the slots of the function that it is made in. -/
theorem Emitter.slotsAt_replace_same {e : Emitter} {id : Nat}
    (found : e.module.functions[id]? = some f) (same : F.slots 0 = f.slots 0) (k : Nat) :
    (e.replace id F).module.slotsAt k = e.module.slotsAt k := by
  rw [slotsAt_replace found]
  split
  · rename_i here
    rw [here, same, Module.slotsAt_eq found]
  · rfl

/-- However the action ends, all slots are as before. -/
def Emit.KeepsSlots {α : Type} (action : Emit α) : Prop :=
  ∀ e id, (Emit.after action e).module.slotsAt id = e.module.slotsAt id

namespace Emit.KeepsSlots

theorem of_looks {α : Type} {action : Emit α} (looks : Emit.Looks action) : Emit.KeepsSlots action := by
  intro e id
  rw [looks e]

theorem addFunction (name : String) (params : List Param) (returnType : Ty) :
    Emit.KeepsSlots (Emitter.addFunction name params returnType) := by
  intro e id
  have added : (Emit.after (Emitter.addFunction name params returnType) e).module =
    e.module.addFunction (.declare name params returnType) := rfl
  rw [added, Module.slotsAt, Module.addFunction, Array.getElem?_push]
  split
  · -- there was no function with this number
    rename_i new
    simp [Module.slotsAt, new, Func.slots, Func.declare]
  · rfl

theorem appendBlock (function : Nat) (label : String) :
    Emit.KeepsSlots (Emitter.appendBlock function label) := by
  intro e id
  rcases Emitter.appendBlock_cases e function label with ⟨error, run⟩ | ⟨f, found, run⟩
  · rw [Emit.after_of_error run]
  · rw [Emit.after_of_ok run]
    exact Emitter.slotsAt_replace_same found (Func.slots_addBlock f label 0) id

theorem push {i : Instr} (plain : i.isAlloca = false) : Emit.KeepsSlots (Emitter.push i) := by
  intro e k
  rcases Emitter.push_cases e i with ⟨error, run⟩ | ⟨id, c, here, run⟩
  · rw [Emit.after_of_error run]
  · have same : (c.push i).func.slots 0 = c.func.slots 0 := by
      rw [Cursor.push, Func.slots_pushInstr plain, Cursor.slots_opened]
    rw [Emit.after_of_ok run]
    exact Emitter.slotsAt_replace_same here.function same k

theorem pushResult (ty : Ty) (name : String) {make : Nat → Instr}
    (plain : ∀ id, (make id).isAlloca = false) :
    Emit.KeepsSlots (Emitter.pushResult ty name make) := by
  intro e k
  rcases Emitter.pushResult_cases e ty name make with ⟨error, run⟩ | ⟨id, c, here, run⟩
  · rw [Emit.after_of_error run]
  · have same : (c.pushResult ty name (make c.func.locals.size)).func.slots 0 = c.func.slots 0 := by
      rw [Cursor.pushResult, Func.slots_pushInstr (plain _), Func.slots_addLocal, Cursor.slots_opened]
    rw [Emit.after_of_ok run]
    exact Emitter.slotsAt_replace_same here.function same k

theorem terminate (t : Terminator) : Emit.KeepsSlots (Emitter.terminate t) := by
  intro e k
  rcases Emitter.terminate_cases e t with ⟨error, run⟩ | ⟨id, c, here, run⟩
  · rw [Emit.after_of_error run]
  · have same : (c.terminate t).func.slots 0 = c.func.slots 0 := by
      rw [Cursor.terminate, Func.slots_terminate, Cursor.slots_opened]
    rw [Emit.after_of_ok run]
    exact Emitter.slotsAt_replace_same here.function same k

theorem call (callee : Nat) (args : List Value) (name : String) :
    Emit.KeepsSlots (Emitter.call callee args name) := by
  intro e k
  cases found : e.module.functions[callee]? with
  | none => rw [Emitter.after_call_of_none found]
  | some g =>
    rw [Emitter.after_call found]
    split
    · exact push rfl e k
    · exact pushResult g.returnType name (fun _ => rfl) e k

end Emit.KeepsSlots

/-- A new slot stands behind those of the same function that are there. -/
theorem Emitter.slotsAt_alloca (e : Emitter) (id : Nat) (ty : Ty) (name : String) :
    (Emit.after (Emitter.alloca ty name) e).module.slotsAt id =
      e.module.slotsAt id ++ (e.slotMade? id (.alloca ty name)).toList := by
  rcases alloca_cases e ty name with ⟨error, run⟩ | ⟨p, f, here, found, ⟨_, run⟩ | ⟨body, run⟩⟩
  · have none : e.slotMade? id (.alloca ty name) = none := by
      rw [slotMade?, run]
      cases e.point <;> rfl
    rw [Emit.after_of_error run, none, Option.toList_none, List.append_nil]
  · -- there is no first block: a local has been added, but no slot
    have none : e.slotMade? id (.alloca ty name) = none := by rw [slotMade?, run, here]
    rw [Emit.after_of_error run, none, Option.toList_none, List.append_nil]
    exact slotsAt_replace_same found (Func.slots_addLocal f name .ptr 0) id
  · have made : e.slotMade? id (.alloca ty name) =
        if p.function = id then some (.alloca f.locals.size ty) else none := by
      rw [slotMade?, run, here]
    have body' : 0 < (f.addLocal name .ptr).blocks.size := body
    rw [Emit.after_of_ok run, made, slotsAt_replace found, Func.slots_insertSlot body' rfl,
      Func.slots_addLocal]
    by_cases same : id = p.function
    · subst same
      simp [Module.slotsAt_eq found]
    · simp [same, Ne.symm same]

/-- Only a call that makes a slot changes slots. -/
theorem Request.keepsSlots (request : Request) (other : ¬ ∃ ty name, request = .alloca ty name) :
    Emit.KeepsSlots request.action := by
  cases request with
  | alloca ty name => exact absurd ⟨ty, name, rfl⟩ other
  | addFunction name params returnType => exact .addFunction name params returnType
  | findFunction | setPoint | globalString => exact fun _ _ => rfl
  | function id => exact .of_looks (.function id)
  | appendBlock id label => exact .appendBlock id label
  | currentFunction => exact .of_looks .currentFunction
  | isTerminated => exact .of_looks .isTerminated
  | param index => exact .of_looks (.param index)
  | load | binary | icmp | fcmp | fneg | zext =>
    simp only [Request.action]
    exact Emit.KeepsSlots.pushResult _ _ fun _ => rfl
  | store value ptr => exact Emit.KeepsSlots.push rfl
  | call callee args name => exact .call callee args name
  | ret | branch | condBranch => exact Emit.KeepsSlots.terminate _

theorem Emitter.slotMade?_of_other {request : Request} (other : ¬ ∃ ty name, request = .alloca ty name)
    (e : Emitter) (id : Nat) : e.slotMade? id request = none := by
  cases request with
  | alloca ty name => exact absurd ⟨ty, name, rfl⟩ other
  | _ => rfl

theorem Emitter.slotsAt_answer (e : Emitter) (id : Nat) (request : Request) :
    (e.answer request).module.slotsAt id =
      e.module.slotsAt id ++ (e.slotMade? id request).toList := by
  by_cases slot : ∃ ty name, request = .alloca ty name
  · obtain ⟨ty, name, rfl⟩ := slot
    exact slotsAt_alloca e id ty name
  · rw [slotMade?_of_other slot, Option.toList_none, List.append_nil]
    exact request.keepsSlots slot e id

theorem Emitter.slotsAt_answers (requests : List Request) (e : Emitter) (id : Nat) :
    (e.answers requests).module.slotsAt id = e.module.slotsAt id ++ e.slotsMade id requests := by
  induction requests generalizing e with
  | nil => exact (List.append_nil _).symm
  | cons request requests ih =>
    rw [slotsMade, ← List.append_assoc, ← slotsAt_answer]
    exact ih (e.answer request)

/-! ## Single assignment -/

/-- A function in which the slots `made` stand in front, each local has at most one definition, and
    the table has the types of what is defined. -/
structure Func.SingleAssignment (m : Module) (f : Func) (made : List Instr) : Prop where
  recorded : ∀ i ∈ f.instrs, ∀ id, i.result? = some id →
    ∃ l, f.locals[id]? = some l ∧ i.yields? m = some l.ty
  once : f.results.Nodup
  slots : ∀ i ∈ made, i.isAlloca = true
  blocks : ∀ (k : Nat) (b : Block), f.blocks[k]? = some b →
    ∃ rest, b.instrs.toList = (if k = 0 then made else []) ++ rest ∧ ∀ i ∈ rest, i.isAlloca = false

/-- After any calls, in any order and with any arguments, the functions are in single assignment form,
    with the slots in the order in which they were made. -/
theorem singleAssignment_answers (name : String) (requests : List Request) {id : Nat} {f : Func}
    (found : ((Emitter.start name).answers requests).module.functions[id]? = some f) :
    f.SingleAssignment ((Emitter.start name).answers requests).module
      ((Emitter.start name).slotsMade id requests) := by
  have emitted : ((Emitter.start name).answers requests).module.Emitted := ⟨name, requests, rfl⟩
  -- where the slots are is an invariant of each step, and their order comes from the list of calls
  have assigned := emitted.functions (fun _ => Func.assigned_declare) Func.Step.assigned
    (fun _ assigned => assigned) id f found
  have made : f.slots 0 = (Emitter.start name).slotsMade id requests := by
    have all := Emitter.slotsAt_answers requests (Emitter.start name) id
    rw [Module.slotsAt_eq found] at all
    exact all
  refine ⟨emitted.recorded id f found, assigned.once, fun i member => ?_, fun k b inside => ?_⟩
  · rw [← made] at member
    cases entry : f.blocks[0]? with
    | none => simp [Func.slots, entry] at member
    | some b => exact Block.isAlloca_of_mem_slots (Func.slots_eq entry ▸ member)
  · refine ⟨b.code, ?_, fun i member => assigned.code k i (Func.code_eq inside ▸ member)⟩
    rw [← b.slots_append_code, ← Func.slots_eq inside]
    split
    · rename_i first
      rw [first, made]
    · rename_i later
      rw [assigned.entry k later]

/-- Two functions that are written by turns.  The second slot of the first one is asked for from another
    block, behind a return and after a load, and a third one fails for want of a first block. -/
theorem singleAssignment_answers_byTurns :
    let requests : List Request := [
      .addFunction "f" [] .i32, .addFunction "g" [] .void, .addFunction "h" [] .void,
      .appendBlock 0 "entry", .appendBlock 1 "entry", .setPoint (some ⟨0, 0⟩), .alloca .i32 "x",
      .load .i32 (.result 0 .ptr) "v", .setPoint (some ⟨1, 0⟩), .alloca .i1 "y", .ret none,
      .setPoint (some ⟨2, 0⟩), .alloca .i32 "z", .setPoint (some ⟨0, 0⟩),
      .ret (some (.result 1 .i32)), .alloca .f64 "x", .ret (some (.i32 1))]
    let m := ((Emitter.start "m").answers requests).module
    ∃ f, m.functions[0]? = some f ∧ f.blocks.size = 2 ∧
      f.SingleAssignment m [.alloca 0 .i32, .alloca 2 .f64] := by
  intro requests m
  have two : m.functions[0]?.any (fun f => f.blocks.size == 2) = true := by decide +kernel
  have made : (Emitter.start "m").slotsMade 0 requests = [.alloca 0 .i32, .alloca 2 .f64] := by
    decide +kernel
  obtain ⟨f, found, two⟩ := (Option.any_eq_true _ _).mp two
  exact ⟨f, found, eq_of_beq two, made ▸ singleAssignment_answers "m" requests found⟩

end ImpCompiler.Ssa
