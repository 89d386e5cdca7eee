import ImpCompiler.Lowering
import ImpCompiler.Proofs.Ssa.Cursor

/-! # The actions of lowering

How scopes answer after each change of them, what an action on the module under construction
does to the state of lowering, and how a run of several actions is taken apart.

`Lower.Yields action s Q` says that `action`, run from `s`, gives a result with `Q`, or fails for
a reason that lies in the program: it never fails because the emitter does. -/

namespace ImpCompiler

open Ssa

/-! ## Scopes -/

namespace Scopes

@[simp] theorem lookup_start (name : String) : start.lookup name = none := rfl

@[simp] theorem lookup_push_block (s : Scopes) (name : String) :
    (s.push .block).lookup name = s.lookup name := by
  simp [lookup, push, lookupFrom]

@[simp] theorem lookup_push_function (s : Scopes) (name : String) :
    (s.push .function).lookup name = none := by
  simp [lookup, push, lookupFrom]

theorem lookup_define (s : Scopes) (name : String) (slot : Value) (ty : Ty) (other : String) :
    (s.define name slot ty).lookup other =
      if other = name then some ⟨slot, ty⟩ else s.lookup other := by
  unfold lookup lookupFrom
  by_cases same : other = name
  · simp [define, same]
  · simp [define, List.lookup_cons, beq_false_of_ne same, same]

theorem pop_of_outer {s inner : Scopes} (kept : inner.outer = s.innermost :: s.outer) :
    inner.pop = s := by
  rw [pop, kept]

end Scopes

namespace LowerState

/-- The state with `c` as its cursor, in the function with number `id`. -/
def put (s : LowerState) (id : Nat) (c : Cursor) : LowerState :=
  { s with emitter := s.emitter.put id c }

@[simp] theorem put_put (s : LowerState) (id : Nat) (c c' : Cursor) :
    (s.put id c).put id c' = s.put id c' := by
  simp only [put, Emitter.put_put]

theorem put_self {s : LowerState} {id : Nat} {c : Cursor} (here : s.emitter.At id c) :
    s.put id c = s := by
  rw [put, Emitter.put_self here]

end LowerState

namespace Lower

variable {α β : Type} {s s' : LowerState}

/-! ## Runs of several actions -/

/-- A run of two actions goes through a state in the middle. -/
theorem bind_eq_ok {first : Lower α} {next : α → Lower β} {b : β}
    (run : (first >>= next) s = .ok b s') :
    ∃ a middle, first s = .ok a middle ∧ next a middle = .ok b s' := by
  simp only [bind, EStateM.bind] at run
  split at run
  · exact ⟨_, _, by assumption, run⟩
  · cases run

/-- What `body` does is done, and then the state is restored. -/
theorem ensuring_eq_ok {body : Lower α} {restore : LowerState → LowerState} {a : α}
    (run : ensuring body restore s = .ok a s') :
    ∃ after, body s = .ok a after ∧ s' = restore after := by
  rw [ensuring] at run
  split at run
  · cases run
    exact ⟨_, by assumption, rfl⟩
  · cases run

/-- The action gives a result with `Q`, or the program is in error. -/
def Yields (action : Lower α) (s : LowerState) (Q : α → LowerState → Prop) : Prop :=
  match action s with
  | .ok a s' => Q a s'
  | .error e _ => ∀ reason, e ≠ .emit reason

namespace Yields

variable {action : Lower α} {Q : α → LowerState → Prop} {R : β → LowerState → Prop}

theorem of_eq {a : α} (done : action s = .ok a s') (result : Q a s') : Yields action s Q := by
  rw [Yields, done]
  exact result

theorem ok (yields : Yields action s Q) {a : α} (run : action s = .ok a s') : Q a s' := by
  rw [Yields, run] at yields
  exact yields

theorem error (yields : Yields action s Q) {e : LoweringError} (run : action s = .error e s')
    (reason : EmitError) : e ≠ .emit reason := by
  rw [Yields, run] at yields
  exact yields reason

theorem pure {a : α} (result : Q a s) : Yields (Pure.pure a) s Q :=
  result

theorem throw {e : LoweringError} (inProgram : ∀ reason, e ≠ .emit reason) :
    Yields (MonadExcept.throw e) s Q :=
  inProgram

theorem bind {next : α → Lower β} (first : Yields action s Q)
    (rest : ∀ a middle, Q a middle → Yields (next a) middle R) : Yields (action >>= next) s R := by
  cases run : action s with
  | ok a middle =>
    rw [Yields, bind_eq_of_ok run]
    exact rest a middle (first.ok run)
  | error e last =>
    rw [Yields, bind_eq_of_error run]
    exact first.error run

/-- An action whose result is known comes first. -/
theorem step {next : α → Lower β} {a : α} {middle : LowerState} (done : action s = .ok a middle)
    (rest : Yields (next a) middle R) : Yields (action >>= next) s R := by
  rw [Yields, bind_eq_of_ok done]
  exact rest

theorem mono {Q' : α → LowerState → Prop} (yields : Yields action s Q)
    (weaker : ∀ a s', Q a s' → Q' a s') : Yields action s Q' := by
  rw [Yields] at yields ⊢
  split
  · rename_i a s' run
    rw [run] at yields
    exact weaker a s' yields
  · rename_i e s' run
    rw [run] at yields
    exact yields

theorem ensuring {restore : LowerState → LowerState}
    (body : Yields action s fun a s' => Q a (restore s')) :
    Yields (Lower.ensuring action restore) s Q := by
  rw [Yields] at body
  cases run : action s with
  | ok a after =>
    have done : Lower.ensuring action restore s = .ok a (restore after) := by
      rw [Lower.ensuring, run]
    rw [run] at body
    exact of_eq done body
  | error e after =>
    have failed : Lower.ensuring action restore s = .error e (restore after) := by
      rw [Lower.ensuring, run]
    rw [run] at body
    rw [Yields, failed]
    exact body

end Yields

/-! ## Actions on the module -/

theorem emit_eq {action : Emit α} {a : α} {e : Emitter} (done : action s.emitter = .ok a e) :
    emit action s = .ok a { s with emitter := e } := by
  rw [emit, done]

variable {id : Nat} {c : Cursor} (here : s.emitter.At id c)

include here

theorem appendBlock_eq (label : String) :
    appendBlock label s = .ok c.func.blocks.size (s.put id (c.addBlock label)) := by
  rw [appendBlock, bind_eq_of_ok (emit_eq (Emitter.currentFunction_eq here)),
    emit_eq (Emitter.appendBlock_eq here label)]
  rfl

theorem moveTo_eq (b : Nat) : moveTo b s = .ok () (s.put id (c.moveTo b)) := by
  rw [moveTo, bind_eq_of_ok (emit_eq (Emitter.currentFunction_eq here)),
    emit_eq (Emitter.moveTo_eq here b)]
  rfl

theorem terminate_eq (t : Terminator) :
    emit (Emitter.terminate t) s = .ok () (s.put id (c.terminate t)) :=
  emit_eq (Emitter.terminate_eq here t)

theorem terminateIfOpen_eq (t : Terminator) :
    terminateIfOpen (Emitter.terminate t) s = .ok () (s.put id (c.close t)) := by
  rw [terminateIfOpen, bind_eq_of_ok (emit_eq (Emitter.isTerminated_eq here)), Cursor.close]
  split
  · rw [LowerState.put_self here]
    rfl
  · exact terminate_eq here t

theorem condBranch_eq (v : Value) (yes no : Nat) :
    emit (Emitter.condBranch v yes no) s = .ok () (s.put id (c.terminate (.condBranch v yes no))) :=
  terminate_eq here _

theorem branchIfOpen_eq (target : Nat) :
    terminateIfOpen (Emitter.branch target) s = .ok () (s.put id (c.close (.branch target))) :=
  terminateIfOpen_eq here _

theorem returnZero_eq : returnZero s = .ok () (s.put id (c.close (.ret (some (.i32 0))))) :=
  terminateIfOpen_eq here _

theorem appendBlocks_eq (first second third : String) (rest : Nat → Nat → Nat → Lower α) :
    (do
      let x ← appendBlock first
      let y ← appendBlock second
      let z ← appendBlock third
      rest x y z) s =
      rest c.func.blocks.size (c.func.blocks.size + 1) (c.func.blocks.size + 2)
        (s.put id (c.addBlocks first second third)) := by
  have one : (s.put id (c.addBlock first)).emitter.At id (c.addBlock first) :=
    here.put (Cursor.inside_addBlock here.inside first)
  have two : (s.put id ((c.addBlock first).addBlock second)).emitter.At id
      ((c.addBlock first).addBlock second) :=
    here.put (Cursor.inside_addBlock (Cursor.inside_addBlock here.inside first) second)
  rw [bind_eq_of_ok (appendBlock_eq here first), bind_eq_of_ok (appendBlock_eq one second),
    LowerState.put_put, bind_eq_of_ok (appendBlock_eq two third), LowerState.put_put]
  simp only [Cursor.addBlock, Func.size_addBlock]
  rfl

theorem push_eq (i : Instr) : emit (Emitter.push i) s = .ok () (s.put id (c.push i)) :=
  emit_eq (Emitter.push_eq here i)

theorem pushResult_eq (ty : Ty) (name : String) (make : Nat → Instr) :
    emit (Emitter.pushResult ty name make) s =
      .ok (.result c.func.locals.size ty)
        (s.put id (c.pushResult ty name (make c.func.locals.size))) :=
  emit_eq (Emitter.pushResult_eq here ty name make)

theorem alloca_eq (ty : Ty) (name : String) :
    emit (Emitter.alloca ty name) s =
      .ok (.result c.func.locals.size .ptr) (s.put id (c.alloca ty name)) :=
  emit_eq (Emitter.alloca_eq here ty name)

omit here

/-! ## Compound statements

From here on, lowering a compound statement is a matter of its parts: what comes before and
between them is a change of the cursor. -/

/-- Ends the block with a branch of two ways, and goes to a block. -/
def fork (v : Value) (yes no next : Nat) : Lower Unit := do
  emit (Emitter.condBranch v yes no)
  moveTo next

/-- Ends the block with a branch, unless it has ended, and goes to a block. -/
def jump (target next : Nat) : Lower Unit := do
  terminateIfOpen (Emitter.branch target)
  moveTo next

theorem fork_eq (here : s.emitter.At id c) (v : Value) (yes no next : Nat) :
    fork v yes no next s = .ok () (s.put id (c.fork v yes no next)) := by
  have inside : (c.terminate (.condBranch v yes no)).block <
      (c.terminate (.condBranch v yes no)).func.blocks.size := by
    simpa [Cursor.terminate] using (Cursor.isOpen_opened here.inside).1
  rw [fork, bind_eq_of_ok (condBranch_eq here v yes no), moveTo_eq (here.put inside),
    LowerState.put_put]
  rfl

theorem jump_eq (here : s.emitter.At id c) (target next : Nat) :
    jump target next s = .ok () (s.put id (c.jump target next)) := by
  rw [jump, bind_eq_of_ok (branchIfOpen_eq here target),
    moveTo_eq (here.put (here.inside_close (.branch target))), LowerState.put_put]
  rfl

/-- The cursor at the first of two branches. -/
def atThen (c : Cursor) (v : Value) : Cursor :=
  (c.addBlocks "then" "else" "ifcont").fork v c.func.blocks.size (c.func.blocks.size + 1)
    c.func.blocks.size

theorem ifElse_eq {condition : Lower Value} (yes no : Lower Unit) {v : Value}
    (done : condition s = .ok v s') (there : s'.emitter.At id c) :
    ifElse condition yes no s = (do
      yes
      jump (c.func.blocks.size + 2) (c.func.blocks.size + 1)
      no
      jump (c.func.blocks.size + 2) (c.func.blocks.size + 2)) (s'.put id (atThen c v)) := by
  have three : (s'.put id (c.addBlocks "then" "else" "ifcont")).emitter.At id
      (c.addBlocks "then" "else" "ifcont") :=
    there.put (Cursor.inside_addBlocks there.inside "then" "else" "ifcont")
  have forks := fork_eq three v c.func.blocks.size (c.func.blocks.size + 1) c.func.blocks.size
  rw [LowerState.put_put] at forks
  -- regrouped, so that between the two branches the cursor changes and nothing else
  have parts : ifElse condition yes no = (do
      let v ← condition
      let yesBlock ← appendBlock "then"
      let noBlock ← appendBlock "else"
      let joinBlock ← appendBlock "ifcont"
      fork v yesBlock noBlock yesBlock
      yes
      jump joinBlock noBlock
      no
      jump joinBlock joinBlock) := by
    simp only [ifElse, fork, jump, bind_assoc]
  rw [parts, bind_eq_of_ok done, appendBlocks_eq there, bind_eq_of_ok forks]
  rfl

/-- The cursor at the condition of a loop. -/
def atCondition (c : Cursor) : Cursor :=
  (c.addBlocks "whilecond" "whilebody" "whileafter").jump c.func.blocks.size c.func.blocks.size

theorem whileLoop_eq (condition : Lower Value) (body : Lower Unit) (here : s.emitter.At id c) :
    whileLoop condition body s = (do
      let v ← condition
      fork v (c.func.blocks.size + 1) (c.func.blocks.size + 2) (c.func.blocks.size + 1)
      body
      jump c.func.blocks.size (c.func.blocks.size + 2)) (s.put id (atCondition c)) := by
  have three : (s.put id (c.addBlocks "whilecond" "whilebody" "whileafter")).emitter.At id
      (c.addBlocks "whilecond" "whilebody" "whileafter") :=
    here.put (Cursor.inside_addBlocks here.inside "whilecond" "whilebody" "whileafter")
  have jumps := jump_eq three c.func.blocks.size c.func.blocks.size
  rw [LowerState.put_put] at jumps
  -- likewise, with the condition and the body as the parts
  have parts : whileLoop condition body = (do
      let conditionBlock ← appendBlock "whilecond"
      let bodyBlock ← appendBlock "whilebody"
      let afterBlock ← appendBlock "whileafter"
      jump conditionBlock conditionBlock
      let v ← condition
      fork v bodyBlock afterBlock bodyBlock
      body
      jump conditionBlock afterBlock) := by
    simp only [whileLoop, fork, jump, bind_assoc]
  rw [parts, appendBlocks_eq here, bind_eq_of_ok jumps]
  rfl

/-- A round of a counting loop: the body, and the step in the scope of the body. -/
def roundOf (body : Stmt) (step : Option Expr) : Lower Unit :=
  match step with
  | none => stmt body
  | some step => withBlockScope do
    stmt body
    effect step

/-- A loop behind its first statement, in a scope of their own. -/
def behindInitial (initial : Option Stmt) (loop : Lower Unit) : Lower Unit :=
  if initial.isSome then
    withBlockScope do
      optional initial
      loop
  else
    loop

theorem stmt_forLoop (initial : Option Stmt) (test step : Option Expr) (body : Stmt) :
    stmt (.forLoop initial test step body) =
      behindInitial initial
        (whileLoop (condition (test.getD Stmt.always)) (roundOf body step)) := by
  cases step with
  | none =>
    rw [stmt]
    rfl
  | some step =>
    rw [stmt]
    rfl

theorem size_atThen (inside : c.block < c.func.blocks.size) (v : Value) :
    c.func.blocks.size + 3 ≤ (atThen c v).func.blocks.size := by
  have later := Cursor.extends_fork (Cursor.inside_addBlocks inside "then" "else" "ifcont") v
    c.func.blocks.size (c.func.blocks.size + 1) c.func.blocks.size
  simpa [atThen] using later.size

theorem size_atCondition (inside : c.block < c.func.blocks.size) :
    c.func.blocks.size + 3 ≤ (atCondition c).func.blocks.size := by
  have later := Cursor.extends_jump (Cursor.inside_addBlocks inside "whilecond" "whilebody" "whileafter")
    c.func.blocks.size c.func.blocks.size
  simpa [atCondition] using later.size

theorem keeps_atThen (inside : c.block < c.func.blocks.size) (v : Value) {k : Nat}
    (old : k < c.func.blocks.size) (other : k ≠ c.block) : c.Keeps (atThen c v) k := by
  have blocks : c.Keeps (c.addBlocks "then" "else" "ifcont") k := ⟨by simp, by simp⟩
  exact blocks.trans (Cursor.keeps_fork (Cursor.inside_addBlocks inside "then" "else" "ifcont") other
    (by simpa using Nat.lt_add_right 3 old) v _ _ _)

theorem keeps_atCondition (inside : c.block < c.func.blocks.size) {k : Nat}
    (old : k < c.func.blocks.size) (other : k ≠ c.block) : c.Keeps (atCondition c) k := by
  have blocks : c.Keeps (c.addBlocks "whilecond" "whilebody" "whileafter") k := ⟨by simp, by simp⟩
  exact blocks.trans (Cursor.keeps_jump (Cursor.inside_addBlocks inside "whilecond" "whilebody" "whileafter")
    other (by simpa using Nat.lt_add_right 3 old) _ _)

/-- What two branches do to the blocks, given what each of them does. -/
theorem advances_ifElse {yes no : Cursor} {v : Value} (inside : c.block < c.func.blocks.size)
    (insideYes : yes.block < yes.func.blocks.size) (insideNo : no.block < no.func.blocks.size)
    (size : (atThen c v).func.blocks.size ≤ yes.func.blocks.size)
    (size' : yes.func.blocks.size ≤ no.func.blocks.size) (first : (atThen c v).Advances yes)
    (second : (yes.jump (c.func.blocks.size + 2) (c.func.blocks.size + 1)).Advances no) :
    c.Advances (no.jump (c.func.blocks.size + 2) (c.func.blocks.size + 2)) where
  moves := .inr (Nat.le_add_right _ 2)
  elsewhere k old other := by
    have bound := size_atThen inside v
    -- a block `k` that was there is written to in none of the four moves
    have notThen : k ≠ (atThen c v).block := Nat.ne_of_lt old
    have notElse : k ≠ (yes.jump (c.func.blocks.size + 2) (c.func.blocks.size + 1)).block :=
      Nat.ne_of_lt (Nat.lt_succ_of_lt old)
    have jump := Cursor.extends_jump insideYes (c.func.blocks.size + 2) (c.func.blocks.size + 1)
    have inThen : k < (atThen c v).func.blocks.size := by omega
    have inYes : k < yes.func.blocks.size := by omega
    have inElse := Nat.lt_of_lt_of_le inYes jump.size
    have one := keeps_atThen inside v old other
    have two := one.trans (first.elsewhere k inThen notThen)
    have three := two.trans (Cursor.keeps_jump insideYes (first.block_ne notThen inThen) inYes
      (c.func.blocks.size + 2) (c.func.blocks.size + 1))
    have four := three.trans (second.elsewhere k inElse notElse)
    exact four.trans (Cursor.keeps_jump insideNo (second.block_ne notElse inElse) (by omega) _ _)
  pending P within := by
    -- the third of the new blocks is the only one that is left open
    have before := within.addBlocks "then" "else" "ifcont"
    have opened := before.fork (Cursor.inside_addBlocks inside "then" "else" "ifcont") v
      c.func.blocks.size (c.func.blocks.size + 1)
    have between := (first.pending _ opened).jump insideYes (c.func.blocks.size + 2)
    exact (second.pending _ between).jump insideNo (c.func.blocks.size + 2)

/-- What a loop does to the blocks, given what its parts do. -/
theorem advances_whileLoop {test body : Cursor} {v : Value} (inside : c.block < c.func.blocks.size)
    (insideTest : test.block < test.func.blocks.size)
    (insideBody : body.block < body.func.blocks.size)
    (size : (atCondition c).func.blocks.size ≤ test.func.blocks.size)
    (size' : test.func.blocks.size ≤ body.func.blocks.size)
    (first : (atCondition c).Advances test)
    (second : (test.fork v (c.func.blocks.size + 1) (c.func.blocks.size + 2)
      (c.func.blocks.size + 1)).Advances body) :
    c.Advances (body.jump c.func.blocks.size (c.func.blocks.size + 2)) where
  moves := .inr (Nat.le_add_right _ 2)
  elsewhere k old other := by
    have bound := size_atCondition inside
    have notCondition : k ≠ (atCondition c).block := Nat.ne_of_lt old
    have notBody : k ≠ (test.fork v (c.func.blocks.size + 1) (c.func.blocks.size + 2)
        (c.func.blocks.size + 1)).block := Nat.ne_of_lt (Nat.lt_succ_of_lt old)
    have fork := Cursor.extends_fork insideTest v (c.func.blocks.size + 1) (c.func.blocks.size + 2)
      (c.func.blocks.size + 1)
    have inCondition : k < (atCondition c).func.blocks.size := by omega
    have inTest : k < test.func.blocks.size := by omega
    have inBody := Nat.lt_of_lt_of_le inTest fork.size
    have one := keeps_atCondition inside old other
    have two := one.trans (first.elsewhere k inCondition notCondition)
    have three := two.trans (Cursor.keeps_fork insideTest (first.block_ne notCondition inCondition)
      inTest v (c.func.blocks.size + 1) (c.func.blocks.size + 2) (c.func.blocks.size + 1))
    have four := three.trans (second.elsewhere k inBody notBody)
    exact four.trans (Cursor.keeps_jump insideBody (second.block_ne notBody inBody) (by omega) _ _)
  pending P within := by
    -- the condition and the body are ended; the block behind the loop is open
    have before := within.addBlocks "whilecond" "whilebody" "whileafter"
    have opened := before.jump (Cursor.inside_addBlocks inside "whilecond" "whilebody" "whileafter")
      c.func.blocks.size
    have forked := (first.pending _ opened).fork insideTest v (c.func.blocks.size + 1)
      (c.func.blocks.size + 2)
    exact (second.pending _ forked).jump insideBody c.func.blocks.size

/-! ## Functions -/

/-- A parameter is a variable that is declared with the value that is passed. -/
theorem storeParams_cons_eq (here : s.emitter.At id c) {index : Nat} {p : Param}
    (found : c.func.params[index]? = some p) (number : p.ty = .i32) (param : Token)
    (params : List Token) :
    storeParams index (param :: params) s = (do
      declare param (.param index .i32)
      storeParams (index + 1) params) s := by
  have value := Emitter.param_eq here found
  rw [number] at value
  rw [storeParams, bind_eq_of_ok (emit_eq value)]
  simp only [declare, bind_assoc]
  rfl

/-- The function that is declared for a definition. -/
def declared (name : String) (params : List Token) : Func :=
  .declare name (params.map fun p => ⟨p.text, .i32⟩) .i32

theorem paramTypes_declared (name : String) (params : List Token) :
    (declared name params).paramTypes = params.map fun _ => .i32 := by
  rw [declared, Func.paramTypes_declare, List.map_map]
  rfl

theorem function_eq {name : Token} (params : List Token) (body : Lower Unit)
    (absent : s.emitter.module.findFunction? name.text = none) :
    function name params body s = ensuring
      (do
        storeParams 0 params
        body
        returnZero)
      (fun t => ⟨{ t.emitter with point := s.emitter.point }, t.scopes.pop⟩)
      ⟨s.emitter.enter (declared name.text params), s.scopes.push .function⟩ := by
  have find_eq : emit (Emitter.findFunction name.text) s = .ok none s := by
    rw [← absent]
    rfl
  have add_eq : emit (Emitter.addFunction name.text (params.map fun p => ⟨p.text, .i32⟩) .i32) s =
    .ok s.emitter.module.functions.size { s with emitter := { s.emitter with
      module := s.emitter.module.addFunction (declared name.text params) } } := rfl
  rw [function, bind_eq_of_ok find_eq]
  dsimp only
  rw [bind_eq_of_ok add_eq, withFunction]
  -- the entry block is appended to the last function, which has just been added
  rw [bind_eq_of_ok (rfl : (get : Lower LowerState) _ = .ok _ _),
    bind_eq_of_ok (emit_eq (Emitter.appendBlock_addFunction s.emitter (declared name.text params)))]
  rfl

theorem program_eq (statements : List Stmt) :
    program statements s = (do
      stmts statements
      returnZero) ⟨s.emitter.enter (.declare "main" [] .i32), s.scopes⟩ := by
  have add_eq : emit (Emitter.addFunction "main" [] .i32) s =
    .ok s.emitter.module.functions.size { s with emitter := { s.emitter with
      module := s.emitter.module.addFunction (.declare "main" [] .i32) } } := rfl
  rw [program, bind_eq_of_ok add_eq,
    bind_eq_of_ok (emit_eq (Emitter.appendBlock_addFunction s.emitter _))]
  rfl

end Lower

/-! ## Results -/

/-- Results that are the same but for what `view` leaves out of errors. -/
theorem mapError_eq_cases {ε δ α : Type} {view : ε → δ} {x y : Except ε α}
    (same : x.mapError view = y.mapError view) :
    (∃ a, x = .ok a ∧ y = .ok a) ∨ ∃ e d, x = .error e ∧ y = .error d ∧ view e = view d := by
  cases x with
  | ok a =>
    cases y with
    | ok b => exact .inl ⟨a, rfl, (Except.ok.inj same).symm ▸ rfl⟩
    | error d => cases same
  | error e =>
    cases y with
    | ok b => cases same
    | error d => exact .inr ⟨e, d, rfl, rfl, Except.error.inj same⟩

end ImpCompiler
