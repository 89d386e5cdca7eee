import ImpCompiler.Proofs.Ssa.Histories

/-! # Calls that fail

A call can fail because there is no insertion point, because a function or a parameter does not exist,
or because the insertion point is at a block that does not exist.  Nearly every action looks for all
that it needs before it writes anything, so that a failed call leaves no trace.

There is one exception.  A slot takes its name before its function is found to have no block to hold it:
the call fails, and the function is left with one more local, which nothing defines
(`answer_of_failure`). -/

namespace ImpCompiler.Ssa

/-! ## Actions that fail without a trace -/

/-- Why an action fails, if it does. -/
def Emit.failure? {α : Type} (action : Emit α) (e : Emitter) : Option EmitError :=
  match action e with
  | .ok _ _ => none
  | .error error _ => some error

theorem Emit.failure?_of_ok {α : Type} {action : Emit α} {a : α} {e e' : Emitter}
    (run : action e = .ok a e') : Emit.failure? action e = none := by
  rw [failure?, run]

theorem Emit.failure?_of_error {α : Type} {action : Emit α} {error : EmitError} {e e' : Emitter}
    (run : action e = .error error e') : Emit.failure? action e = some error := by
  rw [failure?, run]

theorem Emit.error_of_failure? {α : Type} {action : Emit α} {e : Emitter} {error : EmitError}
    (failed : Emit.failure? action e = some error) : action e = .error error (Emit.after action e) := by
  rw [failure?] at failed
  rw [after]
  cases run : action e with
  | ok a e' => simp [run] at failed
  | error reason e' => simpa [run] using failed

/-- If the action fails, then the emitter is left as it was. -/
def Emit.FailsClean {α : Type} (action : Emit α) : Prop :=
  ∀ (e e' : Emitter) (error : EmitError), action e = .error error e' → e' = e

namespace Emit.FailsClean

variable {α β : Type} {action : Emit α}

theorem after (clean : Emit.FailsClean action) {e : Emitter} {error : EmitError}
    (failed : Emit.failure? action e = some error) : Emit.after action e = e :=
  clean e _ error (Emit.error_of_failure? failed)

/-- An action that fails as it finds the emitter, or else succeeds. -/
theorem of_cases (ends : ∀ e, (∃ error, action e = .error error e) ∨ ∃ a e', action e = .ok a e') :
    Emit.FailsClean action := by
  intro e e' error failed
  rcases ends e with ⟨reason, run⟩ | ⟨a, later, run⟩
  · cases failed.symm.trans run
    rfl
  · cases failed.symm.trans run

/-- Looking comes first. -/
theorem bind {next : α → Emit β} (looks : Emit.Looks action) (clean : ∀ a, Emit.FailsClean (next a)) :
    Emit.FailsClean (action >>= next) := by
  intro e e' error run
  have same := looks e
  cases first : action e with
  | ok a middle =>
    rw [Emit.after_of_ok first] at same
    rw [bind_eq_of_ok first, same] at run
    exact clean a e e' error run
  | error reason middle =>
    rw [Emit.after_of_error first] at same
    rw [bind_eq_of_error first] at run
    cases run
    exact same

/-- What is made of the result does not matter. -/
theorem bind_pure (clean : Emit.FailsClean action) (f : α → β) :
    Emit.FailsClean (action >>= fun a => Pure.pure (f a)) := by
  intro e e' error run
  cases first : action e with
  | ok a middle =>
    rw [bind_eq_of_ok first] at run
    cases run
  | error reason middle =>
    rw [bind_eq_of_error first] at run
    cases run
    exact clean e _ _ first

theorem of_looks (looks : Emit.Looks action) : Emit.FailsClean action := by
  intro e e' error run
  rw [← looks e, Emit.after_of_error run]

theorem push (i : Instr) : Emit.FailsClean (Emitter.push i) := by
  refine of_cases fun e => ?_
  rcases Emitter.push_cases e i with failed | ⟨_, _, _, run⟩
  · exact .inl failed
  · exact .inr ⟨_, _, run⟩

theorem pushResult (ty : Ty) (name : String) (make : Nat → Instr) :
    Emit.FailsClean (Emitter.pushResult ty name make) := by
  refine of_cases fun e => ?_
  rcases Emitter.pushResult_cases e ty name make with failed | ⟨_, _, _, run⟩
  · exact .inl failed
  · exact .inr ⟨_, _, run⟩

theorem terminate (t : Terminator) : Emit.FailsClean (Emitter.terminate t) := by
  refine of_cases fun e => ?_
  rcases Emitter.terminate_cases e t with failed | ⟨_, _, _, run⟩
  · exact .inl failed
  · exact .inr ⟨_, _, run⟩

theorem appendBlock (function : Nat) (label : String) :
    Emit.FailsClean (Emitter.appendBlock function label) := by
  refine of_cases fun e => ?_
  rcases Emitter.appendBlock_cases e function label with failed | ⟨_, _, run⟩
  · exact .inl failed
  · exact .inr ⟨_, _, run⟩

theorem call (callee : Nat) (args : List Value) (name : String) :
    Emit.FailsClean (Emitter.call callee args name) := by
  refine bind (.function callee) fun f => ?_
  -- the callee is known, and all that is left is to write one instruction
  by_cases void : f.returnType = .void
  · rw [if_pos void]
    exact (push _).bind_pure _
  · rw [if_neg void]
    exact (pushResult _ _ _).bind_pure _

end Emit.FailsClean

/-! ## Calls -/

theorem Request.failsClean (request : Request) (other : ¬ ∃ ty name, request = .alloca ty name) :
    Emit.FailsClean request.action := by
  cases request with
  | alloca ty name => exact absurd ⟨ty, name, rfl⟩ other
  -- these always succeed
  | addFunction | findFunction | setPoint | globalString =>
    intro _ _ _ run
    cases run
  -- these only look
  | function id => exact .of_looks (.function id)
  | currentFunction => exact .of_looks .currentFunction
  | isTerminated => exact .of_looks .isTerminated
  | param index => exact .of_looks (.param index)
  -- these look for all they need before they write
  | appendBlock id label => exact .appendBlock id label
  | store value ptr => exact Emit.FailsClean.push _
  | call callee args name => exact .call callee args name
  | load | binary | icmp | fcmp | fneg | zext =>
    simp only [Request.action]
    exact Emit.FailsClean.pushResult _ _ _
  | ret | branch | condBranch => exact Emit.FailsClean.terminate _

namespace Emitter

/-- Why a call fails, if it does. -/
def failure? (e : Emitter) (request : Request) : Option EmitError :=
  Emit.failure? request.action e

/-- The call asks for a slot with the name `name`, and the current function is `f`, with the number `id`,
    which has no block to hold it. -/
structure WantsBlock (e : Emitter) (request : Request) (id : Nat) (f : Func) (name : String) : Prop where
  request : ∃ ty, request = .alloca ty name
  point : ∃ block, e.point = some ⟨id, block⟩
  function : e.module.functions[id]? = some f
  empty : f.blocks.size = 0

/-- A slot that cannot be held leaves its name behind. -/
theorem WantsBlock.alloca {e : Emitter} {request : Request} {id : Nat} {f : Func} {name : String}
    (wants : e.WantsBlock request id f name) :
    e.failure? request = some .noInsertPoint ∧ e.answer request = e.replace id (f.addLocal name .ptr) := by
  obtain ⟨⟨ty, rfl⟩, ⟨block, here⟩, found, empty⟩ := wants
  have declaration : f.isDeclaration = true := by simpa [Func.isDeclaration] using empty
  have run := alloca_eq_of_found here found ty name
  rw [if_pos declaration] at run
  exact ⟨Emit.failure?_of_error run, Emit.after_of_error run⟩

theorem replace_addLocal_ne {e : Emitter} {id : Nat} {f : Func} (found : e.module.functions[id]? = some f)
    (name : String) (ty : Ty) : e.replace id (f.addLocal name ty) ≠ e := by
  intro same
  have changed := function_replace found (f.addLocal name ty)
  rw [same, found] at changed
  have sizes : f.locals.size = (f.addLocal name ty).locals.size :=
    congrArg (fun g => g.locals.size) (Option.some.inj changed)
  simp [Func.addLocal] at sizes

theorem wantsBlock_or_answer_alloca_eq {e : Emitter} {ty : Ty} {slot : String} {error : EmitError}
    (failed : e.failure? (.alloca ty slot) = some error) :
    (∃ id f name, e.WantsBlock (.alloca ty slot) id f name) ∨ e.answer (.alloca ty slot) = e := by
  rcases alloca_cases e ty slot with ⟨reason, run⟩ | ⟨p, f, here, found, ⟨empty, _⟩ | ⟨_, run⟩⟩
  · exact .inr (Emit.after_of_error run)
  · exact .inl ⟨p.function, f, slot, ⟨ty, rfl⟩, ⟨p.block, here⟩, found, empty⟩
  · cases (Emit.failure?_of_ok run).symm.trans failed

theorem wantsBlock_or_answer_eq {e : Emitter} {request : Request} {error : EmitError}
    (failed : e.failure? request = some error) :
    (∃ id f name, e.WantsBlock request id f name) ∨ e.answer request = e := by
  by_cases slot : ∃ ty name, request = .alloca ty name
  · obtain ⟨ty, name, rfl⟩ := slot
    exact wantsBlock_or_answer_alloca_eq failed
  · exact .inr ((request.failsClean slot).after failed)

end Emitter

/-- A failed call leaves the module and the insertion point as they were, unless it asks for a slot in a
    function without blocks.  There it fails for want of an insertion point, and all that it does is to
    give the function one more local. -/
theorem answer_of_failure {e : Emitter} {request : Request} {error : EmitError}
    (failed : e.failure? request = some error) :
    ((¬ ∃ id f name, e.WantsBlock request id f name) → e.answer request = e) ∧
    ∀ id f name, e.WantsBlock request id f name →
      error = .noInsertPoint ∧ e.answer request = e.replace id (f.addLocal name .ptr) ∧
        e.answer request ≠ e := by
  refine ⟨(Emitter.wantsBlock_or_answer_eq failed).resolve_left, fun id f name wants => ?_⟩
  obtain ⟨reason, left⟩ := wants.alloca
  refine ⟨Option.some.inj (failed.symm.trans reason), left, ?_⟩
  rw [left]
  exact Emitter.replace_addLocal_ne wants.function name .ptr

/-- A call of a function that does not exist, behind a return: no block is opened for it. -/
theorem answer_of_failure_behindReturn :
    let e := (Emitter.start "m").answers [
      .addFunction "f" [] .i32, .appendBlock 0 "entry", .setPoint (some ⟨0, 0⟩), .ret (some (.i32 0))]
    let request := Request.call 7 [.i32 1] "x"
    e.failure? request = some (.unknownFunction 7) ∧ e.answer request = e := by
  intro e request
  have failed : e.failure? request = some (.unknownFunction 7) := by decide +kernel
  refine ⟨failed, (answer_of_failure failed).1 ?_⟩
  rintro ⟨id, f, name, ⟨ty, slot⟩, _, _, _⟩
  have slot : Request.call 7 [.i32 1] "x" = .alloca ty name := slot
  cases slot

/-- The name of a slot that could not be made stays taken: a block that asks for it gets a number. -/
theorem failed_slot_takes_name :
    let e := (Emitter.start "m").answers [.addFunction "f" [] .i32, .setPoint (some ⟨0, 0⟩)]
    let request := Request.alloca .i32 "x"
    let labels (e : Emitter) := (e.answer (.appendBlock 0 "x")).module.functions.toList.map fun f =>
      f.blocks.toList.map Block.label
    e.failure? request = some .noInsertPoint ∧ labels e = [["x"]] ∧
      labels (e.answer request) = [["x1"]] ∧ e.answer request ≠ e := by
  intro e request labels
  have before : labels e = [["x"]] := by decide +kernel
  have behind : labels (e.answer request) = [["x1"]] := by decide +kernel
  refine ⟨by decide +kernel, before, behind, fun same => ?_⟩
  rw [same, before] at behind
  revert behind
  decide

end ImpCompiler.Ssa
