import ImpCompiler.Proofs.Lowering.Construction
import ImpCompiler.Proofs.Lowering.WellFormed
import ImpCompiler.Proofs.Ssa.Nameless
import Mathlib.Data.List.Forall2

/-! # Renaming the variables of a program

If different variables of a program get different new names, then its module changes in names
only, and an error changes in the variable that it names (`lowerProgram_rename`).

New names may clash with the labels and the names of temporaries, which come from the same
table, so the two runs give out different names.  They are compared state by state: the modules
are the same without names, and the new name of a variable finds in the new scopes what the old
name finds in the old ones.  All that lowering is put together from keeps this (`Built.renamed`). -/

namespace ImpCompiler

open Ssa

/-- The error without the label of a block. -/
def LoweringError.unlabelled : LoweringError → LoweringError
  | .malformed error => .malformed error.unlabelled
  | e => e

/-! ## Renamed scopes -/

section Scopes

variable (ρ : String → String) (vs : List String)

/-- The names of `vs`, renamed, find in the second scope what they find in the first. -/
structure Scope.Renamed (a b : Scope) : Prop where
  kind : b.kind = a.kind
  bindings : ∀ x ∈ vs, b.bindings.lookup (ρ x) = a.bindings.lookup x

/-- Scopes that correspond, one by one. -/
structure Scopes.Renamed (s t : Scopes) : Prop where
  innermost : Scope.Renamed ρ vs s.innermost t.innermost
  outer : List.Forall₂ (Scope.Renamed ρ vs) s.outer t.outer

variable {ρ vs}

theorem Scope.renamed_empty (kind : ScopeKind) : Scope.Renamed ρ vs ⟨kind, []⟩ ⟨kind, []⟩ :=
  ⟨rfl, fun _ _ => rfl⟩

theorem lookupFrom_renamed {x : String} (inside : x ∈ vs) {a b : Scope} (here : Scope.Renamed ρ vs a b)
    {outer outer' : List Scope} (around : List.Forall₂ (Scope.Renamed ρ vs) outer outer') :
    Scopes.lookupFrom (ρ x) b outer' = Scopes.lookupFrom x a outer := by
  induction around generalizing a b with
  | nil =>
    rw [Scopes.lookupFrom.eq_def, Scopes.lookupFrom.eq_def x, here.bindings x inside, here.kind]
    cases a.bindings.lookup x <;> cases a.kind <;> rfl
  | cons next _ ih =>
    rw [Scopes.lookupFrom.eq_def, Scopes.lookupFrom.eq_def x, here.bindings x inside, here.kind]
    cases a.bindings.lookup x <;> cases a.kind
    -- only a block that does not declare the name looks further
    · rfl
    · exact ih next
    · rfl
    · rfl

namespace Scopes.Renamed

variable {s t : Scopes}

theorem start : Scopes.Renamed ρ vs .start .start :=
  ⟨Scope.renamed_empty _, .nil⟩

theorem push (renamed : Scopes.Renamed ρ vs s t) (kind : ScopeKind) :
    Scopes.Renamed ρ vs (s.push kind) (t.push kind) :=
  ⟨Scope.renamed_empty kind, .cons renamed.innermost renamed.outer⟩

theorem pop (renamed : Scopes.Renamed ρ vs s t) : Scopes.Renamed ρ vs s.pop t.pop := by
  obtain ⟨a, outer⟩ := s
  obtain ⟨b, outer'⟩ := t
  cases renamed.outer with
  | nil => exact renamed
  | cons next rest => exact ⟨next, rest⟩

theorem lookup (renamed : Scopes.Renamed ρ vs s t) {x : String} (inside : x ∈ vs) :
    t.lookup (ρ x) = s.lookup x :=
  lookupFrom_renamed inside renamed.innermost renamed.outer

/-- The new name of a variable hides no other variable. -/
theorem define (distinct : ∀ x ∈ vs, ∀ y ∈ vs, ρ x = ρ y → x = y) (renamed : Scopes.Renamed ρ vs s t)
    {x : String} (inside : x ∈ vs) (slot : Value) (ty : Ty) :
    Scopes.Renamed ρ vs (s.define x slot ty) (t.define (ρ x) slot ty) := by
  refine ⟨⟨renamed.innermost.kind, fun y inside' => ?_⟩, renamed.outer⟩
  simp only [Scopes.define, List.lookup_cons]
  by_cases same : y = x
  · subst same
    simp
  · have apart : ρ y ≠ ρ x := fun equal => same (distinct y inside' x inside equal)
    rw [beq_false_of_ne same, beq_false_of_ne apart]
    exact renamed.innermost.bindings y inside'

end Scopes.Renamed

end Scopes

/-- Functions that are the same without names have the same signature. -/
theorem Ssa.Func.signature_eq_of_nameless {f g : Func} (same : f.nameless = g.nameless) :
    f.signature = g.signature := by
  rw [signature, signature, name_eq_of_nameless same, paramTypes_eq_of_nameless same,
    returnType_eq_of_nameless same, isDeclaration_eq_of_nameless same]

/-! ## Steps of lowering -/

/-- States in two runs of lowering, the second with the variables `vs` renamed. -/
structure LowerState.Renamed (ρ : String → String) (vs : List String) (s t : LowerState) : Prop where
  emitter : s.emitter.nameless = t.emitter.nameless
  scopes : Scopes.Renamed ρ vs s.scopes t.scopes

namespace Lower

variable {ρ : String → String} {vs : List String} {α : Type} {Q : α → α → Prop}

/-- The second action does what the first one does, with the variables `vs` renamed. -/
abbrev Renamed (ρ : String → String) (vs : List String) (Q : α → α → Prop) (x y : Lower α) : Prop :=
  RunsAlike (LowerState.Renamed ρ vs) (fun e d => d = e.rename ρ) Q x y

theorem emit_renamed {x y : Emit α} (alike : Emitter.Alike Q x y) : Renamed ρ vs Q (emit x) (emit y) := by
  intro s t states
  have results := alike _ _ states.emitter
  rw [emit, emit]
  generalize x s.emitter = result, y t.emitter = result' at results
  cases results with
  | ok values same => exact .ok values ⟨same, states.scopes⟩
  | error errors same =>
    subst errors
    exact .error rfl ⟨same, states.scopes⟩

theorem modifyScopes_renamed {change change' : Scopes → Scopes}
    (alike : ∀ s t, Scopes.Renamed ρ vs s t → Scopes.Renamed ρ vs (change s) (change' t)) :
    Renamed ρ vs Eq (modifyScopes change) (modifyScopes change') :=
  fun _ _ states => .ok rfl ⟨states.emitter, alike _ _ states.scopes⟩

theorem ensuring_renamed {x y : Lower α} (body : Renamed ρ vs Q x y)
    {restore : LowerState → LowerState}
    (kept : ∀ s t, LowerState.Renamed ρ vs s t → LowerState.Renamed ρ vs (restore s) (restore t)) :
    Renamed ρ vs Q (ensuring x restore) (ensuring y restore) := by
  intro s t states
  have results := body s t states
  rw [ensuring, ensuring]
  generalize x s = result, y t = result' at results
  cases results with
  | ok values states => exact .ok values (kept _ _ states)
  | error errors states => exact .error errors (kept _ _ states)

theorem withBlockScope_renamed {x y : Lower Unit} (body : Renamed ρ vs Eq x y) :
    Renamed ρ vs Eq (withBlockScope x) (withBlockScope y) := by
  refine (modifyScopes_renamed fun _ _ scopes => scopes.push .block).step fun _ => ?_
  exact ensuring_renamed body fun _ _ states => ⟨states.emitter, states.scopes.pop⟩

theorem withFunction_renamed (id : Nat) {x y : Lower Unit} (body : Renamed ρ vs Eq x y) :
    Renamed ρ vs Eq (withFunction id x) (withFunction id y) := by
  apply RunsAlike.get.bind
  intro s t states
  -- both runs come back to the same point
  dsimp only
  rw [Emitter.point_nameless states.emitter]
  refine (emit_renamed (Emitter.appendBlock_alike id _ _)).step fun entry => ?_
  refine (emit_renamed (Emitter.moveTo_alike id entry)).step fun _ => ?_
  refine (modifyScopes_renamed fun _ _ scopes => scopes.push .function).step fun _ => ?_
  refine ensuring_renamed body fun _ _ states => ⟨?_, states.scopes.pop⟩
  exact Emitter.nameless_mk (Emitter.module_nameless states.emitter) _

theorem appendBlock_renamed (label : String) : Renamed ρ vs Eq (appendBlock label) (appendBlock label) :=
  (emit_renamed Emitter.currentFunction_alike).step fun id =>
    emit_renamed (Emitter.appendBlock_alike id label label)

theorem moveTo_renamed (block : Nat) : Renamed ρ vs Eq (moveTo block) (moveTo block) :=
  (emit_renamed Emitter.currentFunction_alike).step fun id =>
    emit_renamed (Emitter.moveTo_alike id block)

theorem terminateIfOpen_renamed (t : Terminator) :
    Renamed ρ vs Eq (terminateIfOpen (Emitter.terminate t)) (terminateIfOpen (Emitter.terminate t)) := by
  refine (emit_renamed Emitter.isTerminated_alike).step fun ended => ?_
  cases ended with
  | true => exact .pure rfl
  | false => exact emit_renamed (Emitter.terminate_alike t)

theorem lookup_renamed {name : Token} (inside : name.text ∈ vs) :
    Renamed ρ vs Eq (lookup name) (lookup (name.rename ρ)) := by
  apply RunsAlike.get.bind
  intro s t states
  rw [show (name.rename ρ).text = ρ name.text from rfl, states.scopes.lookup inside]
  cases s.scopes.lookup name.text with
  | none => exact .throw rfl
  | some binding => exact .pure rfl

theorem function_renamed (name : Token) {params : List Token} {x y : Lower Unit}
    (stored : Renamed ρ vs Eq (storeParams 0 params) (storeParams 0 (params.map (Token.rename ρ))))
    (body : Renamed ρ vs Eq x y) :
    Renamed ρ vs Eq (function name params x) (function name (params.map (Token.rename ρ)) y) := by
  refine (emit_renamed (Emitter.findFunction_alike name.text)).step fun found => ?_
  cases found with
  | some id => exact .throw rfl
  | none =>
    -- parameters ask for new names, and are numbers as before
    have types : (params.map fun p => (⟨p.text, .i32⟩ : Param)).map Param.ty =
        ((params.map (Token.rename ρ)).map fun p => (⟨p.text, .i32⟩ : Param)).map Param.ty := by
      simp only [List.map_map, Function.comp_def]
    refine (emit_renamed (Emitter.addFunction_alike name.text types .i32)).step fun id => ?_
    apply withFunction_renamed
    exact stored.step fun _ => body.step fun _ => terminateIfOpen_renamed _

/-! ## The whole of lowering -/

/-- The change that renames the variables `vs`, and puts no token at another position. -/
def Change.rename (ρ : String → String) (vs : List String) : Change :=
  { Change.none with vars := (· ∈ vs), name := ρ }

theorem Change.stmts_rename (ss : List Stmt) : (Change.rename ρ vs).stmts ss = ss.map (Stmt.rename ρ) := by
  have unmoved : Token.move (Change.rename ρ vs).position = id := rfl
  rw [Change.stmts, unmoved, Stmt.listRelabel_id, Stmt.listRename_eq_map]
  rfl

/-- The same is written under other names. -/
theorem Emits.alike {x y : Emit α} (emits : Emits (Change.rename ρ vs) x y) : Emitter.Alike Eq x y := by
  cases emits with
  | push i => exact Emitter.push_alike i
  | pushResult ty name make => exact Emitter.pushResult_alike ty name name make
  | load ty slot name => exact Emitter.pushResult_alike _ _ _ _
  | alloca ty name => exact Emitter.alloca_alike ty name _
  | terminate t => exact Emitter.terminate_alike t
  | param index => exact Emitter.param_alike index
  | call callee args name => exact Emitter.call_alike callee args name
  | findFunction name => exact Emitter.findFunction_alike name
  | addFunction name params returnType => exact Emitter.addFunction_alike name rfl returnType

theorem Built.renamed (distinct : ∀ x ∈ vs, ∀ y ∈ vs, ρ x = ρ y → x = y) {blocks : List Nat}
    {names : String → Prop} {texts : List String} {x y : Lower α}
    (built : Built (Change.rename ρ vs) blocks names texts x y) : Renamed ρ vs Eq x y := by
  induction built with
  | pure a => exact .pure rfl
  | throw e => exact .throw (LoweringError.move_id _)
  | bind _ _ first rest => exact first.step rest
  | emit emits => exact emit_renamed emits.alike
  | globalString text => exact emit_renamed (Emitter.globalString_alike text)
  | signature id _ rest =>
    apply (emit_renamed (Emitter.function_alike id)).bind
    intro f g same
    rw [Func.signature_eq_of_nameless same]
    exact rest g.signature
  | lookup known => exact lookup_renamed known
  | define known _ slot ty =>
    exact modifyScopes_renamed fun _ _ scopes => scopes.define distinct known slot ty
  | appendBlock label _ rest => exact (appendBlock_renamed label).step rest
  | moveTo _ => exact moveTo_renamed _
  | terminateIfOpen t => exact terminateIfOpen_renamed t
  | withBlockScope _ body => exact withBlockScope_renamed body
  | function name _ _ stored body => exact function_renamed name stored body

theorem program_renamed (distinct : ∀ x ∈ vs, ∀ y ∈ vs, ρ x = ρ y → x = y) (ss : List Stmt)
    (inside : Stmt.listVars ss ⊆ vs) :
    Renamed ρ vs Eq (program ss) (program (ss.map (Stmt.rename ρ))) := by
  have built : Built (Change.rename ρ vs) [] _ _ _ _ := stmts_built ss fun _ member => inside member
  have renamed := built.renamed distinct
  rw [Change.stmts_rename] at renamed
  refine (emit_renamed (Emitter.addFunction_alike "main" rfl .i32)).step fun main => ?_
  refine (emit_renamed (Emitter.appendBlock_alike main "entry" "entry")).step fun entry => ?_
  refine (emit_renamed (Emitter.moveTo_alike main entry)).step fun _ => ?_
  exact renamed.step fun _ => terminateIfOpen_renamed _

end Lower

/-! ## Programs -/

/-- The check of a module that was written for a program, up to the labels in its message, says
    the same of all modules with the same content. -/
theorem check_unlabelled {m m' : Module} {ss ss' : List Stmt} (complete : Lower.Complete ss m)
    (complete' : Lower.Complete ss' m') (same : m.nameless = m'.nameless) :
    m.check.mapError CheckError.unlabelled = m'.check.mapError CheckError.unlabelled := by
  rw [complete.sound.check_eq complete.finished, complete'.sound.check_eq complete'.finished,
    ← Module.checkReturns_nameless, ← Module.checkReturns_nameless, same]

/-- Renaming the variables of a program, different ones differently, changes its module in the names of
    locals, parameters and blocks only, and its error in the variable it names and the block it names. -/
theorem lowerProgram_rename (moduleName : String) {ρ : String → String} {ss : List Stmt}
    (distinct : ∀ x ∈ Stmt.listVars ss, ∀ y ∈ Stmt.listVars ss, ρ x = ρ y → x = y) :
    (∃ m m', lowerProgram moduleName ss = .ok m ∧
      lowerProgram moduleName (ss.map (Stmt.rename ρ)) = .ok m' ∧ m.nameless = m'.nameless) ∨
    ∃ e e', lowerProgram moduleName ss = .error e ∧
      lowerProgram moduleName (ss.map (Stmt.rename ρ)) = .error e' ∧
      (e.rename ρ).unlabelled = e'.unlabelled := by
  have results := Lower.program_renamed distinct ss (List.Subset.refl _) ⟨.start moduleName, .start⟩
    ⟨.start moduleName, .start⟩ ⟨rfl, .start⟩
  have yields := Lower.program_yields moduleName ss
  have yields' := Lower.program_yields moduleName (ss.map (Stmt.rename ρ))
  rw [Lower.Yields] at yields yields'
  rw [lowerProgram, lowerProgram]
  -- from here on only the results of the two runs matter, and that their modules are complete
  generalize Lower.program ss _ = result, Lower.program (ss.map _) _ = result' at results yields yields'
  cases results with
  | error errors _ =>
    subst errors
    exact .inr ⟨_, _, rfl, rfl, rfl⟩
  | @ok _ _ s t _ states =>
    have same := Emitter.module_nameless states.emitter
    dsimp only
    obtain ⟨_, passed, passed'⟩ | ⟨e, e', failed, failed', labels⟩ :=
      mapError_eq_cases (check_unlabelled yields yields' same)
    · rw [passed, passed']
      exact .inl ⟨_, _, rfl, rfl, same⟩
    · rw [failed, failed']
      exact .inr ⟨_, _, rfl, rfl, congrArg LoweringError.malformed labels⟩

/-- A variable that is renamed to `then` takes that name before the block of a branch asks for it, and
    the value read from it takes `then1`. -/
theorem lowerProgram_rename_label :
    let token := fun kind text => (⟨kind, text, ⟨1, 1⟩⟩ : Token)
    let a := token .identifier "a"
    let ss : List Stmt := [.declare a (some (.literal (token .intLiteral "1"))),
      .ifElse (.name a) (.declare (token .identifier "b") (some (.name a))) none]
    let ρ := fun x => if x = "a" then "then" else "then1"
    let label := fun m : Module => m.functions[0]?.bind fun f => f.label? 1
    ∃ m m', lowerProgram "m" ss = .ok m ∧ lowerProgram "m" (ss.map (Stmt.rename ρ)) = .ok m' ∧
      label m = some "then" ∧ label m' = some "then2" ∧ m.nameless = m'.nameless := by
  intro token a ss ρ label
  have distinct : ∀ x ∈ Stmt.listVars ss, ∀ y ∈ Stmt.listVars ss, ρ x = ρ y → x = y := by decide
  have labels : (lowerProgram "m" ss).toOption.bind label = some "then" := by decide +kernel
  have labels' : (lowerProgram "m" (ss.map (Stmt.rename ρ))).toOption.bind label = some "then2" := by
    decide +kernel
  rcases lowerProgram_rename "m" distinct with ⟨m, m', run, run', same⟩ | ⟨e, _, failed, _⟩
  · rw [run] at labels
    rw [run'] at labels'
    exact ⟨m, m', run, run', labels, labels', same⟩
  · rw [failed] at labels
    cases labels

end ImpCompiler
