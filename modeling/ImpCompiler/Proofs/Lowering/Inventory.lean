import ImpCompiler.Proofs.Ssa.Histories
import ImpCompiler.Proofs.Typing.Agreement
import ImpCompiler.Proofs.Typing.Mentions

/-! # The inventory of a module

A module holds what its program mentions, and nothing else.  Its functions are those that the type
discipline knows at the end of the program; its string constants are followed in lowering itself, which adds
those that the program mentions, whatever it is put together from (`Lower.Built.stores`). -/

namespace ImpCompiler

open Ssa Typing

/-! ## String constants -/

/-- The string constants with one more behind them. -/
def Ssa.Module.storeText (globals : Array Global) (text : String) : Array Global :=
  globals.push ⟨Module.globalName globals.size, text.toUTF8.data.toList⟩

theorem toList_foldl_storeText (texts : List String) (globals : Array Global) :
    (texts.foldl Module.storeText globals).toList =
      globals.toList ++ texts.mapIdx fun k text =>
        ⟨Module.globalName (globals.size + k), text.toUTF8.data.toList⟩ := by
  induction texts generalizing globals with
  | nil => simp
  | cons text texts ih =>
    rw [List.foldl_cons, ih]
    simp [Module.storeText, List.mapIdx_cons, Nat.add_assoc, Nat.add_comm 1]

/-! ## Actions of the emitter -/

/-- An action that adds no string constant. -/
def Ssa.Emit.KeepsGlobals {α : Type} (action : Emit α) : Prop :=
  ∀ e a e', action e = .ok a e' → e'.module.globals = e.module.globals

namespace Ssa.Emit.KeepsGlobals

variable {α β : Type}

theorem of_looks {action : Emit α} (looks : Emit.Looks action) : Emit.KeepsGlobals action := by
  intro e a e' run
  rw [← Emit.after_of_ok run, looks e]

theorem bind {first : Emit α} {next : α → Emit β} (keeps : Emit.KeepsGlobals first)
    (rest : ∀ a, Emit.KeepsGlobals (next a)) : Emit.KeepsGlobals (first >>= next) := by
  intro e b e' run
  cases run₁ : first e with
  | ok a middle =>
    rw [bind_eq_of_ok run₁] at run
    rw [rest a middle b e' run, keeps e a middle run₁]
  | error error middle =>
    rw [bind_eq_of_error run₁] at run
    cases run

theorem modifyFunction (id : Nat) (change : Func → Func) :
    Emit.KeepsGlobals (Emitter.modifyFunction id change) := by
  intro e a e' run
  cases run
  rfl

theorem setPoint (point : Option InsertPoint) : Emit.KeepsGlobals (Emitter.setPoint point) := by
  intro e a e' run
  cases run
  rfl

theorem addFunction (name : String) (params : List Param) (returnType : Ty) :
    Emit.KeepsGlobals (Emitter.addFunction name params returnType) := by
  intro e a e' run
  cases run
  rfl

theorem findFunction (name : String) : Emit.KeepsGlobals (Emitter.findFunction name) :=
  of_looks fun _ => rfl

theorem function (id : Nat) : Emit.KeepsGlobals (Emitter.function id) :=
  of_looks (.function id)

theorem appendBlock (id : Nat) (label : String) : Emit.KeepsGlobals (Emitter.appendBlock id label) :=
  (function id).bind fun _ => (modifyFunction id _).bind fun _ => of_looks (.pure _)

theorem openBlock : Emit.KeepsGlobals Emitter.openBlock := by
  refine (of_looks .currentPoint).bind fun point => (function point.function).bind fun f => ?_
  cases f.blocks[point.block]? with
  | none => exact of_looks (.throw _)
  | some b =>
    dsimp only
    split
    · exact (appendBlock _ _).bind fun _ => (setPoint _).bind fun _ => of_looks (.pure _)
    · exact of_looks (.pure _)

theorem push (i : Instr) : Emit.KeepsGlobals (Emitter.push i) :=
  openBlock.bind fun _ => modifyFunction _ _

theorem pushResult (ty : Ty) (name : String) (make : Nat → Instr) :
    Emit.KeepsGlobals (Emitter.pushResult ty name make) :=
  openBlock.bind fun _ => (function _).bind fun _ => (modifyFunction _ _).bind fun _ =>
    of_looks (.pure _)

theorem terminate (t : Terminator) : Emit.KeepsGlobals (Emitter.terminate t) :=
  openBlock.bind fun _ => modifyFunction _ _

theorem alloca (ty : Ty) (name : String) : Emit.KeepsGlobals (Emitter.alloca ty name) := by
  refine (of_looks .currentFunction).bind fun id => (function id).bind fun f =>
    (modifyFunction id _).bind fun _ => ?_
  split
  · exact of_looks (.throw _)
  · exact (modifyFunction id _).bind fun _ => of_looks (.pure _)

theorem call (callee : Nat) (args : List Value) (name : String) :
    Emit.KeepsGlobals (Emitter.call callee args name) := by
  refine (function callee).bind fun f => ?_
  dsimp only
  split
  · exact (push _).bind fun _ => of_looks (.pure _)
  · exact (pushResult _ _ _).bind fun _ => of_looks (.pure _)

end Ssa.Emit.KeepsGlobals

/-! ## Lowering -/

namespace Lower

/-- Where the action succeeds, it adds string constants for `texts`. -/
def Stores {α : Type} (texts : List String) (action : Lower α) : Prop :=
  ∀ s a s', action s = .ok a s' →
    s'.emitter.module.globals = texts.foldl Module.storeText s.emitter.module.globals

namespace Stores

variable {α β : Type} {texts texts' : List String}

theorem pure (a : α) : Stores [] (Pure.pure a) := by
  intro s b s' run
  cases run
  rfl

theorem throw (e : LoweringError) : Stores texts (MonadExcept.throw e : Lower α) := by
  intro s a s' run
  cases run

theorem get : Stores [] (MonadState.get : Lower LowerState) := by
  intro s a s' run
  cases run
  rfl

theorem bind {first : Lower α} {next : α → Lower β} (stores : Stores texts first)
    (rest : ∀ a, Stores texts' (next a)) : Stores (texts ++ texts') (first >>= next) := by
  intro s b s' run
  obtain ⟨a, middle, run₁, run₂⟩ := bind_eq_ok run
  rw [rest a middle b s' run₂, stores s a middle run₁, List.foldl_append]

/-- What comes first adds nothing. -/
theorem behind {first : Lower α} {next : α → Lower β} (stores : Stores [] first)
    (rest : ∀ a, Stores texts (next a)) : Stores texts (first >>= next) :=
  stores.bind rest

/-- What comes last adds nothing. -/
theorem before {first : Lower α} {next : α → Lower β} (stores : Stores texts first)
    (rest : ∀ a, Stores [] (next a)) : Stores texts (first >>= next) := by
  have both := stores.bind rest
  rwa [List.append_nil] at both

theorem emit {action : Emit α} (keeps : Emit.KeepsGlobals action) : Stores [] (Lower.emit action) := by
  intro s a s' run
  rw [Lower.emit] at run
  split at run
  · rename_i b e run₁
    cases run
    exact keeps s.emitter a e run₁
  · cases run

theorem ensuring {body : Lower α} {restore : LowerState → LowerState}
    (stores : Stores texts body)
    (kept : ∀ s, (restore s).emitter.module = s.emitter.module) :
    Stores texts (Lower.ensuring body restore) := by
  intro s a s' run
  obtain ⟨after, run', same⟩ := ensuring_eq_ok run
  rw [same, kept]
  exact stores s a after run'

theorem modifyScopes (change : Scopes → Scopes) : Stores [] (Lower.modifyScopes change) := by
  intro s a s' run
  cases run
  rfl

theorem withBlockScope {body : Lower Unit} (stores : Stores texts body) :
    Stores texts (Lower.withBlockScope body) :=
  (modifyScopes _).behind fun _ => stores.ensuring fun _ => rfl

theorem withFunction (id : Nat) {body : Lower Unit} (stores : Stores texts body) :
    Stores texts (Lower.withFunction id body) :=
  get.behind fun _ => (emit (.appendBlock id _)).behind fun _ => (emit (.setPoint _)).behind fun _ =>
    (modifyScopes _).behind fun _ => stores.ensuring fun _ => rfl

theorem appendBlock (label : String) : Stores [] (Lower.appendBlock label) :=
  (emit (.of_looks .currentFunction)).behind fun _ => emit (.appendBlock _ _)

theorem moveTo (block : Nat) : Stores [] (Lower.moveTo block) :=
  (emit (.of_looks .currentFunction)).behind fun _ => emit (.setPoint _)

theorem terminateIfOpen {action : Emit Unit} (keeps : Emit.KeepsGlobals action) :
    Stores [] (Lower.terminateIfOpen action) := by
  refine (emit (.of_looks .isTerminated)).behind fun ended => ?_
  cases ended with
  | true => exact pure ()
  | false => exact emit keeps

theorem lookup (name : Token) : Stores [] (Lower.lookup name) := by
  refine get.behind fun s => ?_
  cases s.scopes.lookup name.text with
  | none => exact throw _
  | some binding => exact pure _

theorem globalString (text : String) : Stores [text] (Lower.emit (Emitter.globalString text)) := by
  intro s a s' run
  cases run
  rfl

theorem function (name : Token) {params : List Token} {body : Lower Unit}
    (stored : Stores [] (storeParams 0 params)) (stores : Stores texts body) :
    Stores texts (Lower.function name params body) := by
  refine (emit (.findFunction _)).behind fun found => ?_
  cases found with
  | some id => exact throw _
  | none =>
    exact (emit (.addFunction _ _ _)).behind fun id => withFunction id <|
      stored.behind fun _ => stores.before fun _ => terminateIfOpen (.terminate _)

end Stores

/-! ## The whole of lowering -/

variable {α : Type} {δ : Change} {blocks : List Nat} {names : String → Prop} {texts : List String}

theorem Emits.keepsGlobals {x y : Emit α} (emits : Emits δ x y) : Emit.KeepsGlobals x := by
  cases emits with
  | push i => exact .push i
  | pushResult ty name make => exact .pushResult ty name make
  | load ty slot name => exact .pushResult _ _ _
  | alloca ty name => exact .alloca ty name
  | terminate t => exact .terminate t
  | param index => exact .of_looks (.param index)
  | call callee args name => exact .call callee args name
  | findFunction name => exact .findFunction name
  | addFunction name params returnType => exact .addFunction name params returnType

theorem Built.stores {x y : Lower α} (built : Built δ blocks names texts x y) : Stores texts x := by
  induction built with
  | pure a => exact .pure a
  | throw e => exact .throw e
  | bind _ _ first rest => exact first.bind rest
  | emit emits => exact .emit emits.keepsGlobals
  | globalString text => exact .globalString text
  | signature id _ rest => exact (Stores.emit (.function id)).behind fun f => rest f.signature
  | lookup _ => exact .lookup _
  | define _ _ slot ty => exact .modifyScopes _
  | appendBlock label _ rest => exact (Stores.appendBlock label).behind rest
  | moveTo _ => exact .moveTo _
  | terminateIfOpen t => exact .terminateIfOpen (.terminate t)
  | withBlockScope _ body => exact .withBlockScope body
  | function name _ _ stored body => exact .function name stored body

theorem program_stores (statements : List Stmt) :
    Stores (Mention.texts (Stmt.listMentions statements)) (program statements) := by
  have built : Built Change.none [] _ _ _ _ := stmts_built statements fun _ _ => trivial
  exact (Stores.emit (.addFunction _ _ _)).behind fun _ => (Stores.emit (.appendBlock _ _)).behind fun _ =>
    (Stores.emit (.setPoint _)).behind fun _ => built.stores.before fun _ => .terminateIfOpen (.terminate _)

end Lower

/-! ## The inventory -/

/-- The signatures of the functions of a module. -/
def Ssa.Module.signatures (m : Module) : List Signature :=
  m.functions.toList.map Func.signature

def mainSignature : Signature :=
  ⟨"main", [], .i32, false⟩

theorem signatures_of_lowerProgram {moduleName : String} {statements : List Stmt} {m : Module}
    (accepted : lowerProgram moduleName statements = .ok m) :
    m.signatures = (Stmt.listMentions statements).foldl Mention.know [mainSignature] := by
  obtain ⟨s, run, rfl⟩ := program_of_lowerProgram accepted
  obtain ⟨Γ, checked, same⟩ := (Lower.program_conforms moduleName statements).of_ok run
  have ordinary : Ordinary Context.start.functions := by
    intro f member
    rw [List.mem_singleton.mp member]
    exact .inl rfl
  have functions := adds_checkStmts statements _ Γ ordinary checked
  rw [← show s.context = Γ from same] at functions
  exact functions

/-- The functions of a module are `main`, those that the program defines, in order, and the routines
    for what it prints, each once; its string constants are the string literals of the program, in
    order. -/
theorem lowerProgram_inventory {moduleName : String} {statements : List Stmt} {m : Module}
    (accepted : lowerProgram moduleName statements = .ok m) :
    let mentions := Stmt.listMentions statements
    m.signatures.head? = some mainSignature ∧
    m.signatures.filter (!·.isDeclaration) = mainSignature :: mentions.filterMap Mention.definition? ∧
    (m.signatures.filter (·.isDeclaration)).Nodup ∧
    (∀ f, f ∈ m.signatures.filter (·.isDeclaration) ↔ ∃ e routine, .printed e ∈ mentions ∧
      printRoutine? e.valueType = some routine ∧ f = routineSignature routine) ∧
    m.globals.toList = (mentions.filterMap Mention.text?).mapIdx (fun k text =>
      ⟨Module.globalName k, text.toUTF8.data.toList⟩) ∧
    ∀ e s v s', Relation.ReflTransGen Lower.Part ⟨.stmts statements, Lower.entry moduleName⟩
      ⟨.expr e, s⟩ → Lower.expr e s = .ok v s' → v.ty = e.valueType := by
  intro mentions
  have signatures := signatures_of_lowerProgram accepted
  refine ⟨?_, ?_, ?_, ?_, ?_, ?_⟩
  · -- `main` is known from the start, and stays where it is
    obtain ⟨rest, split⟩ := isPrefix_foldl_know mentions [mainSignature]
    rw [signatures, ← split]
    rfl
  · rw [signatures, filter_foldl_know]
    rfl
  · -- functions have names of their own
    have names := (complete_of_lowerProgram accepted).sound.names
    have nodup : (m.signatures.map Signature.name).Nodup := by
      rw [Module.signatures, List.map_map]
      exact names
    have differ : m.signatures.Nodup :=
      List.Pairwise.of_map Signature.name (fun _ _ other same => other (congrArg _ same)) nodup
    exact differ.filter _
  · intro f
    rw [List.mem_filter, signatures]
    constructor
    · rintro ⟨member, declared⟩
      -- `main` has a body, so that the declaration is that of a routine
      rcases (mem_foldl_know declared).mp member with main | ⟨mention, inside, routine, needs, same⟩
      · rw [List.mem_singleton.mp main] at declared
        cases declared
      · cases mention with
        | printed e => exact ⟨e, routine, inside, needs, same⟩
        | _ => cases needs
    · rintro ⟨e, routine, inside, needs, rfl⟩
      exact ⟨(mem_foldl_know rfl).mpr (.inr ⟨_, inside, routine, needs, rfl⟩), rfl⟩
  · obtain ⟨s, run, rfl⟩ := program_of_lowerProgram accepted
    rw [Lower.program_stores statements _ _ _ run, toList_foldl_storeText]
    simp [Emitter.start, Module.empty, mentions]
  · -- the type that selects a routine is that of the value that is written
    intro e s v s' reached run
    obtain ⟨_, _, ready⟩ := Lower.ready_entry moduleName
    obtain ⟨id, c, there⟩ := Lower.ready_of_parts reached ready
    obtain ⟨_, _, _, typed⟩ := (Lower.expr_lowersTo e s id c there).ok run
    exact typed

/-- A function inside of another prints the only text, a loop has a text before its body and one
    behind it, and both a truth value and a number are printed as numbers. -/
theorem lowerProgram_inventory_nested :
    let token := fun kind text => (⟨kind, text, ⟨1, 1⟩⟩ : Token)
    let name := token .identifier
    let number := fun text => Expr.literal (token .intLiteral text)
    let text := fun text => Expr.literal (token .stringLiteral text)
    let statements : List Stmt := [
      .function (name "f") [name "a", name "b"] [.function (name "g") [] [.print (text "in")]],
      .forLoop (some (.declare (name "i") (some (text "first")))) none
        (some (.assign (name "i") (text "step"))) (.print (.literal (token .boolLiteral "true"))),
      .print (.call (name "f") [number "1", number "2"])]
    ∃ m, lowerProgram "m" statements = .ok m ∧
      m.signatures.filter (!·.isDeclaration) =
        [mainSignature, ⟨"f", [.i32, .i32], .i32, false⟩, ⟨"g", [], .i32, false⟩] ∧
      (∀ f, f ∈ m.signatures.filter (·.isDeclaration) ↔
        f = routineSignature .text ∨ f = routineSignature .integer) ∧
      m.globals.toList = ["in", "first", "step"].mapIdx fun k text =>
        ⟨Module.globalName k, text.toUTF8.data.toList⟩ := by
  intro token name number text statements
  have lowers : (lowerProgram "m" statements).toOption.isSome = true := by decide +kernel
  obtain ⟨m, found⟩ := Option.isSome_iff_exists.mp lowers
  have accepted := eq_ok_of_toOption found
  obtain ⟨_, bodies, _, declared, globals, _⟩ := lowerProgram_inventory accepted
  refine ⟨m, accepted, bodies, fun f => (declared f).trans ?_, globals⟩
  have printed : ∀ e, .printed e ∈ Stmt.listMentions statements ↔ e = text "in" ∨
      e = .literal (token .boolLiteral "true") ∨ e = .call (name "f") [number "1", number "2"] := by
    intro e
    simp [statements, Stmt.listMentions, Stmt.mentions, Stmt.optionalMentions, Expr.optionalMentions,
      Expr.listMentions, Expr.mentions, text, number, token]
  constructor
  · rintro ⟨e, routine, member, needs, rfl⟩
    rcases (printed e).mp member with rfl | rfl | rfl
    · exact .inl (congrArg _ (Option.some.inj needs).symm)
    · exact .inr (congrArg _ (Option.some.inj needs).symm)
    · exact .inr (congrArg _ (Option.some.inj needs).symm)
  · rintro (rfl | rfl)
    · exact ⟨_, .text, (printed _).mpr (.inl rfl), rfl, rfl⟩
    · exact ⟨_, .integer, (printed _).mpr (.inr (.inl rfl)), rfl, rfl⟩

end ImpCompiler
