import ImpCompiler.Proofs.Lowering.Runs
import ImpCompiler.Proofs.Lowering.WellFormed
import ImpCompiler.Proofs.Semantics.Source

/-! # The functions of a module and the definitions of its program

Each definition of a program has a function in the module, which was written in one run and
not touched since, and all other functions of the module are declarations.  So what is to be
shown of the functions of a module is to be shown of the runs that write them (`BodyRun`). -/

namespace ImpCompiler

open Ssa

/-- The cursor at the start of the function for a definition. -/
def Definition.entry (d : Definition) : Cursor :=
  ⟨(Lower.declared d.name d.params).addBlock "entry", 0⟩

namespace Lower

variable {bad : Prop} {id : Nat} {s s' : LowerState} {c c' : Cursor}

/-- The function `f`, with number `k` in the module `m`, was written for the definition `d`. -/
structure WrittenFor (d : Definition) (k : Nat) (f : Func) (m : Module) : Prop where
  found : m.functions[k]? = some f
  run : ∃ s₀ s₁ c₁ s₂ c₂, s₀.Ready k d.entry ∧ (∀ name, s₀.scopes.lookup name = none) ∧
    BodyRun (AnyBad (Stmt.listReturns d.body)) d.params (stmts d.body) k s₀ d.entry s₁ c₁ s₂ c₂ ∧
    f = (atEnd c₂).func ∧ s₂.emitter.module.Extends m

theorem WrittenFor.mono {d : Definition} {k : Nat} {f : Func} {m m' : Module}
    (written : WrittenFor d k f m) (later : m.Extends m')
    (same : m'.functions[k]? = m.functions[k]?) : WrittenFor d k f m' where
  found := same.trans written.found
  run := by
    obtain ⟨s₀, s₁, c₁, s₂, c₂, entered, empty, parts, all, before⟩ := written.run
    exact ⟨s₀, s₁, c₁, s₂, c₂, entered, empty, parts, all, before.trans later⟩

theorem WrittenFor.name {d : Definition} {k : Nat} {f : Func} {m : Module}
    (written : WrittenFor d k f m) : f.name = d.name := by
  obtain ⟨s₀, s₁, c₁, s₂, c₂, entered, _, parts, rfl, _⟩ := written.run
  have later := ((parts.stored.func entered).trans (parts.written.func parts.stored.ready)).trans
    (parts.ended.func parts.written.ready)
  exact later.name

/-- The functions of `m` from number `n` on are those for the definitions, and declarations. -/
structure Covers (definitions : List Definition) (n : Nat) (m : Module) : Prop where
  all : ∀ d ∈ definitions, ∃ k f, n ≤ k ∧ WrittenFor d k f m
  only : ∀ k f, n ≤ k → m.functions[k]? = some f →
    f.blocks.size = 0 ∨ ∃ d ∈ definitions, WrittenFor d k f m

namespace Covers

variable {definitions definitions' : List Definition} {n : Nat}

theorem of_exprStep (step : ExprStep id s c s' c') :
    Covers [] s.emitter.module.functions.size s'.emitter.module where
  all _ member := nomatch member
  only k f beyond found := .inl (step.declares k f beyond found)

/-- One step after another, both within a function that was there before. -/
theorem append (first : Covers definitions n s.emitter.module) (old : id < n)
    (bound : n ≤ s.emitter.module.functions.size) (grows : Grows bad id s c s' c')
    (second : Covers definitions' s.emitter.module.functions.size s'.emitter.module) :
    Covers (definitions ++ definitions') n s'.emitter.module := by
  have kept : ∀ {d k f}, n ≤ k → WrittenFor d k f s.emitter.module →
      WrittenFor d k f s'.emitter.module := by
    intro d k f beyond written
    have other : k ≠ id := Nat.ne_of_gt (Nat.lt_of_lt_of_le old beyond)
    have inside := (Array.getElem?_eq_some_iff.mp written.found).1
    exact written.mono grows.module (grows.others k other inside)
  constructor
  · intro d member
    cases List.mem_append.mp member with
    | inl early =>
      obtain ⟨k, f, beyond, written⟩ := first.all d early
      exact ⟨k, f, beyond, kept beyond written⟩
    | inr late =>
      obtain ⟨k, f, beyond, written⟩ := second.all d late
      exact ⟨k, f, Nat.le_trans bound beyond, written⟩
  -- a function is one of the first step, which the second has not touched, or new in the second
  · have early : ∀ k f, n ≤ k → s.emitter.module.functions[k]? = some f →
        f.blocks.size = 0 ∨ ∃ d ∈ definitions ++ definitions', WrittenFor d k f s'.emitter.module := by
      intro k f beyond found
      cases first.only k f beyond found with
      | inl empty => exact .inl empty
      | inr exists_ =>
        obtain ⟨d, member, written⟩ := exists_
        exact .inr ⟨d, List.mem_append_left _ member, kept beyond written⟩
    have late : ∀ k f, s.emitter.module.functions.size ≤ k →
        s'.emitter.module.functions[k]? = some f →
        f.blocks.size = 0 ∨ ∃ d ∈ definitions ++ definitions', WrittenFor d k f s'.emitter.module := by
      intro k f beyond found
      cases second.only k f beyond found with
      | inl empty => exact .inl empty
      | inr exists_ =>
        obtain ⟨d, member, written⟩ := exists_
        exact .inr ⟨d, List.mem_append_right _ member, written⟩
    exact grows.forall_functions old early late

/-- A change of the cursor only. -/
theorem put (covers : Covers definitions n s.emitter.module) (old : id < n)
    (bound : n ≤ s.emitter.module.functions.size) (grows : Grows bad id s c (s.put id c') c') :
    Covers definitions n (s.put id c').emitter.module := by
  have none : Covers [] s.emitter.module.functions.size (s.put id c').emitter.module :=
    ⟨fun _ member => (nomatch member), fun k f beyond found => not_new_of_put beyond found⟩
  have both := covers.append old bound grows none
  rwa [List.append_nil] at both

end Covers

/-- The action writes functions for the definitions, and no others. -/
def Defines (definitions : List Definition) (action : Lower Unit) : Prop :=
  ∀ ⦃s s' id c⦄, s.Ready id c → action s = .ok () s' →
    Covers definitions s.emitter.module.functions.size s'.emitter.module

/-! ## Statements without branches -/

theorem Evaluates.defines {action : Lower Unit} (evaluates : Evaluates action) : Defines [] action := by
  intro s s' id c ready run
  obtain ⟨c', step⟩ := (evaluates s id c ready).ok run
  exact .of_exprStep step

theorem skip_defines : Defines [] (pure ()) :=
  Evaluates.defines fun _ _ c ready => Yields.pure ⟨c, .refl ready⟩

theorem declare_covers (ready : s.Ready id c) {var : Token} {value : Value} (usable : s.CanUse c value)
    (run : declare var value s = .ok () s') :
    Covers [] s.emitter.module.functions.size s'.emitter.module := by
  obtain ⟨s₁, c₁, _, _, step, rfl⟩ := declare_eq_ok ready usable run
  have covers := Covers.of_exprStep step
  rwa [size_functions_put] at covers

theorem declare_defines (var : Token) (initial : Option Expr) :
    Defines [] (stmt (.declare var initial)) := by
  intro s s' id c ready run
  cases initial with
  | none =>
    rw [stmt] at run
    exact declare_covers ready (.constInt rfl) run
  | some e =>
    rw [stmt] at run
    obtain ⟨v, s₁, run₁, run₂⟩ := bind_eq_ok run
    obtain ⟨c₁, step₁, usable, _⟩ := (expr_lowersTo e s id c ready).ok run₁
    obtain ⟨c₂, step₂⟩ := (declare_yields step₁.ready var usable).ok run₂
    exact (Covers.of_exprStep step₁).append ready.here.bound step₁.module.size step₂.toGrows
      (declare_covers step₁.ready usable run₂)

theorem ret_defines (keyword : Token) (value : Option Expr) :
    Defines [] (stmt (.ret keyword value)) := by
  intro s s' id c ready run
  cases value with
  | none =>
    rw [stmt] at run
    obtain rfl := terminate_eq_ok ready run
    exact (Covers.of_exprStep (.refl ready)).put ready.here.bound (Nat.le_refl _)
      (StmtStep.terminate ready (.ret none) trivial).toGrows
  | some e =>
    rw [stmt] at run
    obtain ⟨v, s₁, run₁, run₂⟩ := bind_eq_ok run
    obtain ⟨c₁, step₁, usable, _⟩ := (expr_lowersTo e s id c ready).ok run₁
    obtain rfl := terminate_eq_ok step₁.ready run₂
    exact (Covers.of_exprStep step₁).put ready.here.bound step₁.module.size
      (StmtStep.terminate step₁.ready (.ret (some v)) usable).toGrows

/-! ## Compound statements -/

variable {definitions definitions' : List Definition} {bad' : Prop}

theorem seq_defines {first second : Lower Unit} (lowers : Lowers bad first)
    (lowers' : Lowers bad' second) (defines : Defines definitions first)
    (defines' : Defines definitions' second) :
    Defines (definitions ++ definitions') (do first; second) := by
  intro s s' id c ready run
  obtain ⟨_, s₁, run₁, run₂⟩ := bind_eq_ok run
  obtain ⟨c₁, step₁⟩ := (lowers s id c ready).ok run₁
  obtain ⟨c₂, step₂⟩ := (lowers' s₁ id c₁ step₁.ready).ok run₂
  exact (defines ready run₁).append ready.here.bound step₁.module.size step₂.toGrows
    (defines' step₁.ready run₂)

theorem withBlockScope_defines {body : Lower Unit} (defines : Defines definitions body) :
    Defines definitions (withBlockScope body) := by
  intro s s' id c ready run
  obtain ⟨after, run', rfl⟩ := withBlockScope_eq_ok run
  have covers := defines (Ready.pushBlock ready) run'
  exact covers

theorem ifElse_defines (test : Expr) {yes no : Lower Unit} (lowersYes : Lowers bad yes)
    (lowersNo : Lowers bad' no) (definesYes : Defines definitions yes)
    (definesNo : Defines definitions' no) :
    Defines (definitions ++ definitions') (ifElse (condition test) yes no) := by
  intro s s' id c ready run
  obtain ⟨v, s₁, c₁, s₂, c₂, s₃, c₃, rfl, parts⟩ :=
    branchRun_of_ifElse (condition_lowersTo test) lowersYes lowersNo ready run
  have old := ready.here.bound
  have size₁ := parts.tested.module.size
  have size₂ := Nat.le_trans size₁ (parts.opened.module.trans parts.first.module).size
  have size₃ := Nat.le_trans size₂ (parts.between.module.trans parts.second.module).size
  have first := ((Covers.of_exprStep parts.tested).put old size₁ parts.opened).append old
    (Nat.le_trans size₁ parts.opened.module.size) parts.first.toGrows
    (definesYes parts.opened.ready parts.yes)
  have second := (first.put old size₂ parts.between).append old
    (Nat.le_trans size₂ parts.between.module.size) parts.second.toGrows
    (definesNo parts.between.ready parts.no)
  exact second.put old size₃ parts.joined

theorem whileLoop_defines (test : Expr) {body : Lower Unit} (lowers : Lowers bad body)
    (defines : Defines definitions body) :
    Defines definitions (whileLoop (condition test) body) := by
  intro s s' id c ready run
  obtain ⟨v, s₁, c₁, s₂, c₂, rfl, parts⟩ :=
    loopRun_of_whileLoop (condition_lowersTo test) lowers ready run
  have old := ready.here.bound
  have size₁ := (parts.opened.module.trans parts.tested.module).size
  have size₂ := Nat.le_trans size₁ (parts.forked.module.trans parts.round.module).size
  have tested := Covers.of_exprStep parts.tested
  rw [size_functions_put] at tested
  have round := (tested.put old size₁ parts.forked).append old
    (Nat.le_trans size₁ parts.forked.module.size) parts.round.toGrows
    (defines parts.forked.ready parts.body)
  exact round.put old size₂ parts.closed

theorem roundOf_defines {body : Stmt} (step : Option Expr)
    (defines : Defines definitions (stmt body)) : Defines definitions (roundOf body step) := by
  cases step with
  | none => exact defines
  | some step =>
    have steps := effect_evaluates step
    have round := seq_defines (stmt_lowers body) steps.lowers defines steps.defines
    rw [List.append_nil] at round
    exact withBlockScope_defines round

theorem behindInitial_defines {initial : Option Stmt} {loop : Lower Unit} (lowers : Lowers bad loop)
    (first : Defines (Stmt.optionalFunctions initial) (optional initial))
    (defines : Defines definitions loop) :
    Defines (Stmt.optionalFunctions initial ++ definitions) (behindInitial initial loop) := by
  cases initial with
  | none => exact defines
  | some initial =>
    exact withBlockScope_defines (seq_defines (optional_lowers (some initial)) lowers first defines)

/-! ## Functions -/

theorem storeParams_covers (index : Nat) (params : List Token) (ready : s.Ready id c)
    (numbers : NumbersFrom index params c.func)
    (run : storeParams index params s = .ok () s') :
    Covers [] s.emitter.module.functions.size s'.emitter.module := by
  induction params generalizing index s c with
  | nil =>
    cases run
    exact .of_exprStep (.refl ready)
  | cons param params ih =>
    obtain ⟨s₁, c₁, usable, run₁, step₁, rest, run₂⟩ := storeParams_cons_eq_ok ready numbers run
    obtain ⟨c₂, step₂⟩ := (storeParams_yields (index + 1) params step₁.ready rest).ok run₂
    exact (declare_covers ready usable run₁).append ready.here.bound step₁.module.size step₂.toGrows
      (ih (index + 1) step₁.ready rest run₂)

/-- The function of a definition stands before those of the definitions in its body. -/
theorem bodyRun_covers (d : Definition) {s₁ s₂ : LowerState} {c₁ c₂ : Cursor}
    (entered : s.Ready id d.entry) (empty : ∀ name, s.scopes.lookup name = none)
    (last : s.emitter.module.functions.size = id + 1)
    (parts : BodyRun (AnyBad (Stmt.listReturns d.body)) d.params (stmts d.body) id s d.entry s₁ c₁ s₂ c₂)
    (defines : Defines definitions (stmts d.body)) :
    Covers (d :: definitions) id (s₂.put id (atEnd c₂)).emitter.module := by
  have old : id < s.emitter.module.functions.size := entered.here.bound
  have size₁ := parts.stored.module.size
  have size₂ := Nat.le_trans size₁ parts.written.module.size
  have params := storeParams_covers 0 d.params entered (numbersFrom_declared d.name d.params) parts.params
  have body := params.append old size₁ parts.written.toGrows (defines parts.stored.ready parts.body)
  have inner := body.put old size₂ parts.ended
  rw [last, List.nil_append] at inner
  have own : WrittenFor d id (atEnd c₂).func (s₂.put id (atEnd c₂)).emitter.module :=
    ⟨parts.ended.ready.here.function,
      s, s₁, c₁, s₂, c₂, entered, empty, parts, rfl, parts.ended.module⟩
  constructor
  · intro d' member
    cases member with
    | head => exact ⟨id, _, Nat.le_refl _, own⟩
    | tail _ member =>
      obtain ⟨k, f, beyond, written⟩ := inner.all d' member
      exact ⟨k, f, Nat.le_of_succ_le beyond, written⟩
  · intro k f beyond found
    -- the function itself, or one that its body defines
    cases Nat.eq_or_lt_of_le beyond with
    | inl same =>
      subst same
      have function := own.found.symm.trans found
      cases function
      exact .inr ⟨d, List.mem_cons_self, own⟩
    | inr later =>
      cases inner.only k f later found with
      | inl empty => exact .inl empty
      | inr exists_ =>
        obtain ⟨d', member, written⟩ := exists_
        exact .inr ⟨d', List.mem_cons_of_mem _ member, written⟩

theorem function_defines (name : Token) (params : List Token) {body : List Stmt}
    (defines : Defines definitions (stmts body)) :
    Defines (⟨name.text, params, body⟩ :: definitions) (function name params (stmts body)) := by
  intro s s' id c ready run
  obtain ⟨s₀, s₁, c₁, s₂, c₂, rfl, entered, same, parts⟩ :=
    bodyRun_of_function (stmts_lowers body) ready run
  have last := Emitter.size_functions_enter s.emitter (declared name.text params)
  have empty := s.scopes.lookup_push_function
  rw [same]
  exact bodyRun_covers ⟨name.text, params, body⟩ entered empty last parts defines

mutual

theorem stmt_defines : ∀ st : Stmt, Defines st.functions (stmt st)
  | .expression e => by
    rw [stmt]
    exact (effect_evaluates e).defines
  | .print e => (print_evaluates e).defines
  | .declare var initial => declare_defines var initial
  | .block body => by
    rw [stmt]
    exact withBlockScope_defines (stmts_defines body)
  | .ifElse test yes no => by
    rw [stmt]
    exact ifElse_defines test (stmt_lowers yes) (optional_lowers no) (stmt_defines yes)
      (optional_defines no)
  | .whileLoop test body => by
    rw [stmt]
    exact whileLoop_defines test (stmt_lowers body) (stmt_defines body)
  | .forLoop initial test step body => by
    rw [stmt_forLoop]
    have lowers := roundOf_lowers step (stmt_lowers body)
    exact behindInitial_defines (whileLoop_lowers (condition_lowersTo _) lowers)
      (optional_defines initial)
      (whileLoop_defines _ lowers (roundOf_defines step (stmt_defines body)))
  | .function name params body => by
    rw [stmt]
    exact function_defines name params (stmts_defines body)
  | .ret keyword value => ret_defines keyword value
  | .brk _ => by
    rw [stmt]
    exact skip_defines

theorem stmts_defines : ∀ ss : List Stmt, Defines (Stmt.listFunctions ss) (stmts ss)
  | [] => by
    rw [stmts]
    exact skip_defines
  | st :: ss => by
    rw [stmts]
    exact seq_defines (stmt_lowers st) (stmts_lowers ss) (stmt_defines st) (stmts_defines ss)

theorem optional_defines : ∀ st : Option Stmt, Defines (Stmt.optionalFunctions st) (optional st)
  | none => by
    rw [optional]
    exact skip_defines
  | some st => by
    rw [optional]
    exact stmt_defines st

end

end Lower

/-- The functions of the module of a program are those for its definitions, and declarations. -/
theorem covers_of_lowerProgram {moduleName : String} {statements : List Stmt} {m : Module}
    (accepted : lowerProgram moduleName statements = .ok m) :
    Lower.Covers (programFunctions statements) 0 m := by
  obtain ⟨s, run, rfl⟩ := program_of_lowerProgram accepted
  have absent : (Emitter.start moduleName).module.findFunction? "main" = none := by
    simp [Emitter.start, Module.empty, Module.findFunction?]
  have entered := Lower.Ready.enter (.start moduleName) .start (Lower.sound_empty moduleName) [] absent
    Scopes.lookup_start
  rw [Lower.program_eq] at run
  obtain ⟨s₁, c₁, s₂, c₂, rfl, parts⟩ := Lower.bodyRun_of_run (Lower.stmts_lowers statements) entered
    (Lower.numbersFrom_declared "main" []) run
  have last := Emitter.size_functions_enter (.start moduleName) (Lower.declared "main" [])
  exact Lower.bodyRun_covers ⟨"main", [], statements⟩ entered Scopes.lookup_start last parts
    (Lower.stmts_defines statements)

end ImpCompiler
