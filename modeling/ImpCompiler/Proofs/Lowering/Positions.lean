import ImpCompiler.Proofs.Lowering.Construction

/-! # Lowering does not look at positions

Lowering copies positions into its errors, and uses them for nothing else: if all positions in a program
are changed, then so are those in its error, and its module stays the same (`lowerProgram_move`).

`Lower.moved π action` is the action with the positions in its errors changed by `π`.  It commutes with
all that lowering is put together from, so that the change can be moved from the errors to the trees
(`Built.eq_moved`). -/

namespace ImpCompiler

open Ssa

namespace Lower

variable {α β : Type} {π : Position → Position}

/-- The action with the positions in its errors changed. -/
def moved (π : Position → Position) (action : Lower α) : Lower α :=
  fun s =>
    match action s with
    | .ok a s => .ok a s
    | .error e s => .error (e.move π) s

@[simp] theorem moved_pure (a : α) : moved π (pure a) = pure a := rfl

@[simp] theorem moved_get : moved π get = get := rfl

@[simp] theorem moved_bind (first : Lower α) (next : α → Lower β) :
    moved π (first >>= next) = moved π first >>= fun a => moved π (next a) := by
  funext s
  simp only [moved, bind, EStateM.bind]
  cases first s <;> rfl

@[simp] theorem moved_ensuring (body : Lower α) (restore : LowerState → LowerState) :
    moved π (ensuring body restore) = ensuring (moved π body) restore := by
  funext s
  simp only [moved, ensuring]
  cases body s <;> rfl

/-- The errors of the emitter have no positions. -/
@[simp] theorem moved_emit (action : Emit α) : moved π (emit action) = emit action := by
  funext s
  simp only [moved, emit]
  cases action s.emitter <;> rfl

@[simp] theorem moved_modifyScopes (change : Scopes → Scopes) :
    moved π (modifyScopes change) = modifyScopes change := rfl

/-! ## Steps without positions -/

@[simp] theorem moved_withBlockScope (body : Lower Unit) :
    moved π (withBlockScope body) = withBlockScope (moved π body) := by
  simp only [withBlockScope, moved_bind, moved_modifyScopes, moved_ensuring]

@[simp] theorem moved_withFunction (id : Nat) (body : Lower Unit) :
    moved π (withFunction id body) = withFunction id (moved π body) := by
  simp only [withFunction, moved_bind, moved_get, moved_emit, moved_modifyScopes, moved_ensuring]

@[simp] theorem moved_appendBlock (label : String) : moved π (appendBlock label) = appendBlock label := by
  simp only [appendBlock, moved_bind, moved_emit]

@[simp] theorem moved_moveTo (block : Nat) : moved π (moveTo block) = moveTo block := by
  simp only [moveTo, moved_bind, moved_emit]

@[simp] theorem moved_terminateIfOpen (action : Emit Unit) :
    moved π (terminateIfOpen action) = terminateIfOpen action := by
  simp only [terminateIfOpen, moved_bind, moved_emit]
  refine bind_congr fun ended => ?_
  cases ended with
  | true => rfl
  | false => exact moved_emit action

/-! ## Steps at a token -/

theorem lookup_move (name : Token) : lookup (name.move π) = moved π (lookup name) := by
  simp only [lookup, moved_bind, moved_get, Token.text_move, Token.position_move]
  refine bind_congr fun s => ?_
  cases s.scopes.lookup name.text <;> rfl

theorem function_move (name : Token) {params : List Token}
    (stored : storeParams 0 (params.map (Token.move π)) = moved π (storeParams 0 params))
    (body : Lower Unit) :
    function (name.move π) (params.map (Token.move π)) (moved π body) = moved π (function name params body) := by
  simp only [function, moved_bind, moved_emit, Token.text_move, Token.position_move, List.map_map,
    Function.comp_def, stored]
  refine bind_congr fun found => ?_
  cases found with
  | some id => rfl
  | none => simp only [moved_bind, moved_emit, moved_withFunction, returnZero, moved_terminateIfOpen]

/-! ## The whole of lowering -/

/-- The change that puts tokens at other positions, and renames no variable. -/
def Change.move (π : Position → Position) (fixed : π .synthetic = .synthetic) : Change :=
  ⟨fun _ => True, id, π, fixed⟩

variable {fixed : π .synthetic = .synthetic} {blocks : List Nat} {names : String → Prop}
  {texts : List String}

theorem Change.stmts_move (ss : List Stmt) :
    (Change.move π fixed).stmts ss = ss.map (Stmt.relabel (Token.move π)) := by
  rw [Change.stmts, Change.move, Stmt.listRename_id, Stmt.listRelabel_eq_map]

/-- What is written does not depend on positions. -/
theorem Emits.eq_of_move {x y : Emit α} (emits : Emits (Change.move π fixed) x y) : y = x := by
  cases emits <;> rfl

theorem Built.eq_moved {x y : Lower α} (built : Built (Change.move π fixed) blocks names texts x y) :
    y = moved π x := by
  induction built with
  | pure a => rw [moved_pure]
  | throw e =>
    rw [Change.error, Change.move, LoweringError.rename_id]
    rfl
  | bind _ _ first rest => rw [moved_bind, first, funext rest]
  | emit emits => rw [moved_emit, emits.eq_of_move]
  | globalString text => rw [moved_emit]
  | signature id _ rest => simp only [moved_bind, moved_emit, rest]
  | lookup _ => exact lookup_move _
  | define _ _ slot ty => rfl
  | appendBlock label _ rest => rw [moved_bind, moved_appendBlock, funext rest]
  | moveTo _ => rw [moved_moveTo]
  | terminateIfOpen t => rw [moved_terminateIfOpen]
  | withBlockScope _ body => rw [moved_withBlockScope, body]
  | function name _ _ stored body =>
    rw [body]
    exact function_move name stored _

theorem program_move (fixed : π .synthetic = .synthetic) (ss : List Stmt) :
    program (ss.map (Stmt.relabel (Token.move π))) = moved π (program ss) := by
  have built : Built (Change.move π fixed) [] _ _ _ _ := stmts_built ss fun _ _ => trivial
  have same := built.eq_moved
  rw [Change.stmts_move] at same
  simp only [program, same, moved_bind, moved_emit, returnZero, moved_terminateIfOpen]

end Lower

/-- If the positions in a program are changed, then the position of its error is, and its module is the
    same. -/
theorem lowerProgram_move {π : Position → Position} (fixed : π .synthetic = .synthetic) (moduleName : String)
    (ss : List Stmt) :
    lowerProgram moduleName (ss.map (Stmt.relabel (Token.move π))) =
      (lowerProgram moduleName ss).mapError (LoweringError.move π) := by
  rw [lowerProgram, lowerProgram, Lower.program_move fixed, Lower.moved]
  cases Lower.program ss ⟨.start moduleName, .start⟩ with
  | error e s => rfl
  | ok _ s =>
    -- the same module is checked
    dsimp only
    cases s.emitter.module.check <;> rfl

end ImpCompiler
