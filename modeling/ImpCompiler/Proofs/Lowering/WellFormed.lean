import ImpCompiler.Proofs.Lowering.Soundness
import ImpCompiler.Proofs.Ssa.Checked
import ImpCompiler.Proofs.Ssa.Paths

/-! # Lowered programs are well formed

The module of a program that lowers without an error is sound and written to its end, so the
check finds nothing in it but returns of something other than a number
(`lowerProgram_wellFormed`), and its functions are in single assignment form, which the check
does not look at (`lowerProgram_inSsaForm`). -/

namespace ImpCompiler

open Ssa

namespace Lower

theorem sound_empty (name : String) : (Module.empty name).Sound where
  functions _ _ found := by simp [Module.empty] at found
  returns _ _ found := by simp [Module.empty] at found
  names := List.nodup_nil

/-- What holds of the module of a program. -/
structure Complete (statements : List Stmt) (m : Module) : Prop where
  sound : m.Sound
  finished : ∀ (id : Nat) (f : Func), m.functions[id]? = some f → f.Finished
  returns : m.BadReturn ↔ AnyBad (Stmt.listReturns statements)

theorem program_yields (moduleName : String) (statements : List Stmt) :
    Yields (program statements) ⟨.start moduleName, .start⟩ fun _ s =>
      Complete statements s.emitter.module := by
  have absent : (Emitter.start moduleName).module.findFunction? "main" = none := by
    simp [Emitter.start, Module.empty, Module.findFunction?]
  have entered := Ready.enter (.start moduleName) .start (sound_empty moduleName) [] absent
    Scopes.lookup_start
  rw [Yields, program_eq]
  apply (stmts_lowers statements _ _ _ entered).bind
  rintro _ s₁ ⟨c₁, step₁⟩
  apply (returnZero_finishes entered rfl step₁).mono
  rintro _ s₂ ⟨c₂, grows, finished⟩
  refine ⟨grows.ready.sound, ?_, ?_⟩
  · intro id f found
    cases id with
    | zero =>
      have same := grows.ready.here.function.symm.trans found
      exact Option.some.inj same ▸ finished
    | succ id => exact grows.finished (id + 1) f (Nat.le_add_left 1 id) found
  · have good : ¬ (Emitter.enter (.start moduleName) (.declare "main" [] .i32)).module.BadReturn := by
      rw [Emitter.enter, Module.badReturn_addFunction]
      · rintro ⟨id, f, found, _⟩
        simp [Emitter.start, Module.empty] at found
      · intro b
        rw [Func.terminator?_addBlock]
        simp [Func.terminator?, Func.declare]
    rw [grows.returns]
    exact or_iff_right good

end Lower

theorem eq_ok_of_toOption {ε α : Type} {result : Except ε α} {a : α}
    (some_ : result.toOption = some a) : result = .ok a := by
  cases result with
  | error e => cases some_
  | ok b =>
    cases some_
    rfl

theorem program_of_lowerProgram {moduleName : String} {statements : List Stmt} {m : Module}
    (accepted : lowerProgram moduleName statements = .ok m) :
    ∃ s, Lower.program statements ⟨.start moduleName, .start⟩ = .ok () s ∧ s.emitter.module = m := by
  rw [lowerProgram] at accepted
  split at accepted
  · cases accepted
  · rename_i s run
    split at accepted
    · cases accepted
    · cases accepted
      exact ⟨s, run, rfl⟩

theorem complete_of_lowerProgram {moduleName : String} {statements : List Stmt} {m : Module}
    (accepted : lowerProgram moduleName statements = .ok m) : Lower.Complete statements m := by
  obtain ⟨s, run, rfl⟩ := program_of_lowerProgram accepted
  exact (Lower.program_yields moduleName statements).ok run

/-- Lowering asks for no instruction that cannot be written; the check refuses what it has written exactly
    if something other than a number is returned; and every expression has the type that its form says. -/
theorem lowerProgram_wellFormed (moduleName : String) (statements : List Stmt) :
    (∀ reason, lowerProgram moduleName statements ≠ .error (.emit reason)) ∧
    (∀ s, Lower.program statements ⟨.start moduleName, .start⟩ = .ok () s →
      ((∃ problem, s.emitter.module.check = .error problem) ↔
        ∃ value ∈ Stmt.listReturns statements, BadValue value)) ∧
    (∀ e s id c v s', s.Ready id c → Lower.expr e s = .ok v s' → v.ty = e.valueType) := by
  have yields := Lower.program_yields moduleName statements
  refine ⟨?_, ?_, ?_⟩
  · intro reason failed
    rw [lowerProgram] at failed
    split at failed
    · rename_i e s run
      exact yields.error run reason (Except.error.inj failed)
    · split at failed
      · cases failed
      · cases failed
  · intro s run
    have complete := yields.ok run
    have ok := complete.sound.check_eq_ok_iff complete.finished
    have bad : (∃ problem, s.emitter.module.check = .error problem) ↔
        ¬ s.emitter.module.check = .ok () := by
      cases s.emitter.module.check <;> simp
    rw [bad, ok, Classical.not_not, complete.returns]
    rfl
  · intro e s id c v s' ready run
    obtain ⟨_, _, _, typed⟩ := (Lower.expr_lowersTo e s id c ready).ok run
    exact typed

/-- A function that returns a number and, behind that, nothing: its module is not well formed,
    although the second return is never reached. -/
theorem lowerProgram_wellFormed_unreachable :
    let token := fun kind text => (⟨kind, text, ⟨1, 1⟩⟩ : Token)
    let keyword := token .identifier "return"
    let statements : List Stmt := [.function (token .identifier "f") []
      [.ret keyword (some (.literal (token .intLiteral "1"))), .ret keyword none]]
    ∃ s, Lower.program statements ⟨.start "m", .start⟩ = .ok () s ∧
      ∃ problem, s.emitter.module.check = .error problem := by
  intro token keyword statements
  have lowers : (match Lower.program statements ⟨.start "m", .start⟩ with
      | .ok _ _ => true
      | .error _ _ => false) = true := by decide +kernel
  cases run : Lower.program statements ⟨.start "m", .start⟩ with
  | error e s =>
    rw [run] at lowers
    cases lowers
  | ok _ s =>
    have returns : none ∈ Stmt.listReturns statements := by
      simp [statements, Stmt.listReturns, Stmt.returns]
    exact ⟨s, rfl, ((lowerProgram_wellFormed "m" statements).2.1 s run).mpr ⟨none, returns, trivial⟩⟩

/-- A block can only be opened where there is one to write to. -/
theorem at_of_openBlock {e e' : Emitter} {point : InsertPoint}
    (run : Emitter.openBlock e = .ok point e') : ∃ id c, e.At id c := by
  obtain here | ⟨error, failed⟩ := Emitter.at_or_openBlock_fails e
  · exact here
  · cases failed.symm.trans run

/-- A block that is opened behind a terminator has a label that tells so. -/
theorem deadLabel_openBlock {e e' : Emitter} {point : InsertPoint}
    (run : Emitter.openBlock e = .ok point e') :
    e' = e ∨ ∃ (f : Func) (label : String), e'.module.functions[point.function]? = some f ∧
      f.label? point.block = some label ∧ DeadLabel label := by
  obtain ⟨id, c, here⟩ := at_of_openBlock run
  rw [Emitter.openBlock_eq here] at run
  cases run
  by_cases ended : (c.func.terminator? c.block).isSome = true
  · have opened : c.opened = ⟨c.func.addBlock "dead", c.func.blocks.size⟩ := if_pos ended
    refine .inr ⟨c.opened.func, (c.func.names.fresh "dead").1, here.opened.function, ?_, ?_⟩
    · rw [opened, Func.label?_addBlock, if_pos rfl]
    · exact c.func.names.fresh_fst "dead"
  · have same : c.opened = c := if_neg ended
    rw [same]
    exact .inl (Emitter.put_self here)

/-- Every function is in single assignment form, and a block that is opened behind a terminator has a
    label that tells so. -/
theorem lowerProgram_inSsaForm {moduleName : String} {statements : List Stmt} {m : Module}
    (accepted : lowerProgram moduleName statements = .ok m) :
    (∀ f ∈ m.functions, f.InSsaForm) ∧
    (∀ e e' point, Emitter.openBlock e = .ok point e' → e' = e ∨
      ∃ (f : Func) (label : String), e'.module.functions[point.function]? = some f ∧
        f.label? point.block = some label ∧ DeadLabel label) := by
  refine ⟨?_, fun e e' point run => deadLabel_openBlock run⟩
  intro f member
  obtain ⟨id, found⟩ := Array.getElem?_of_mem member
  exact ((complete_of_lowerProgram accepted).sound.functions id f found).inSsaForm

/-- A loop behind a return: the loop starts in a block that was opened behind a terminator, and
    the variable declared in its body has its slot in the first block, which has ended. -/
theorem lowerProgram_inSsaForm_afterReturn :
    let token := fun kind text => (⟨kind, text, ⟨1, 1⟩⟩ : Token)
    let one := Expr.literal (token .intLiteral "1")
    let statements : List Stmt := [.ret (token .keyword "return") (some one),
      .whileLoop (.binary one (token .compare "<") one) (.declare (token .identifier "x") (some one))]
    ∃ m, lowerProgram "m" statements = .ok m ∧ ∀ f ∈ m.functions, f.InSsaForm := by
  intro token one statements
  have lowers : (lowerProgram "m" statements).toOption.isSome = true := by decide +kernel
  obtain ⟨m, lowered⟩ := Option.isSome_iff_exists.mp lowers
  have run := eq_ok_of_toOption lowered
  exact ⟨m, run, (lowerProgram_inSsaForm run).1⟩

end ImpCompiler
