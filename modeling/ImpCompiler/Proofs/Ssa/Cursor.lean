import ImpCompiler.Proofs.Ssa.Growth
import ImpCompiler.Ssa.Emitter

/-! # The cursor of an emitter

Most actions of an emitter concern one function only: the one that holds the insertion
point.  A cursor is that function with the number of the current block, and each such action
is a change of the cursor.  `Emitter.At` says that an emitter has a given cursor,
`Emitter.put` replaces it, and the equations below say that, from an emitter that has a
cursor, no action fails and each does to the emitter what the change does to the cursor. -/

namespace ImpCompiler.Ssa

/-- A step that succeeds hands its result on. -/
theorem bind_eq_of_ok {ε σ α β : Type} {first : EStateM ε σ α} {next : α → EStateM ε σ β}
    {s s' : σ} {a : α} (done : first s = .ok a s') : (first >>= next) s = next a s' := by
  simp only [bind, EStateM.bind, done]

/-- A step that fails is the last one. -/
theorem bind_eq_of_error {ε σ α β : Type} {first : EStateM ε σ α} {next : α → EStateM ε σ β}
    {s s' : σ} {error : ε} (failed : first s = .error error s') :
    (first >>= next) s = .error error s' := by
  simp only [bind, EStateM.bind, failed]

/-- A function under construction and the number of its current block. -/
structure Cursor where
  func : Func
  block : Nat

namespace Cursor

/-- Whether the current block can be written to. -/
def IsOpen (c : Cursor) : Prop :=
  c.func.IsOpen c.block

/-- The cursor at a block that can be written to: a new one if the current one has ended. -/
def opened (c : Cursor) : Cursor :=
  if (c.func.terminator? c.block).isSome then ⟨c.func.addBlock "dead", c.func.blocks.size⟩ else c

/-- Writes an instruction without a result. -/
def push (c : Cursor) (i : Instr) : Cursor :=
  ⟨c.opened.func.pushInstr c.opened.block i, c.opened.block⟩

/-- Writes an instruction that defines a new local. -/
def pushResult (c : Cursor) (ty : Ty) (name : String) (i : Instr) : Cursor :=
  ⟨(c.opened.func.addLocal name ty).pushInstr c.opened.block i, c.opened.block⟩

/-- Ends the block to write to. -/
def terminate (c : Cursor) (t : Terminator) : Cursor :=
  ⟨c.opened.func.terminate c.opened.block t, c.opened.block⟩

/-- Makes a slot. -/
def alloca (c : Cursor) (ty : Ty) (name : String) : Cursor :=
  ⟨(c.func.addLocal name .ptr).insertSlot (.alloca c.func.locals.size ty), c.block⟩

/-- Adds a block and stays where it is. -/
def addBlock (c : Cursor) (label : String) : Cursor :=
  ⟨c.func.addBlock label, c.block⟩

/-- Adds three blocks and stays where it is. -/
def addBlocks (c : Cursor) (first second third : String) : Cursor :=
  ((c.addBlock first).addBlock second).addBlock third

/-- Ends the current block, unless it has ended. -/
def close (c : Cursor) (t : Terminator) : Cursor :=
  if (c.func.terminator? c.block).isSome then c else c.terminate t

/-- Goes to a block. -/
def moveTo (c : Cursor) (b : Nat) : Cursor :=
  ⟨c.func, b⟩

/-- Ends the block to write to with a branch of two ways, and goes to a block. -/
def fork (c : Cursor) (v : Value) (yes no next : Nat) : Cursor :=
  (c.terminate (.condBranch v yes no)).moveTo next

/-- Ends the current block with a branch, unless it has ended, and goes to a block. -/
def jump (c : Cursor) (target next : Nat) : Cursor :=
  (c.close (.branch target)).moveTo next

/-! ## What a change keeps -/

variable {c : Cursor}

@[simp] theorem code_opened (c : Cursor) (k : Nat) : c.opened.func.code k = c.func.code k := by
  rw [opened]
  split <;> simp

@[simp] theorem slots_opened (c : Cursor) (k : Nat) : c.opened.func.slots k = c.func.slots k := by
  rw [opened]
  split <;> simp

@[simp] theorem terminator?_opened (c : Cursor) (k : Nat) :
    c.opened.func.terminator? k = c.func.terminator? k := by
  rw [opened]
  split <;> simp

@[simp] theorem locals_opened (c : Cursor) : c.opened.func.locals = c.func.locals := by
  rw [opened]
  split <;> rfl

@[simp] theorem instrs_opened (c : Cursor) : c.opened.func.instrs = c.func.instrs := by
  rw [opened]
  split <;> simp

theorem opened_eq (open_ : c.IsOpen) : c.opened = c := by
  rw [opened, open_.2]
  rfl

theorem block_push (open_ : c.IsOpen) (i : Instr) : (c.push i).block = c.block := by
  rw [push, opened_eq open_]

theorem block_pushResult (open_ : c.IsOpen) (ty : Ty) (name : String) (i : Instr) :
    (c.pushResult ty name i).block = c.block := by
  rw [pushResult, opened_eq open_]

theorem block_terminate (open_ : c.IsOpen) (t : Terminator) : (c.terminate t).block = c.block := by
  rw [terminate, opened_eq open_]

theorem isOpen_opened (inside : c.block < c.func.blocks.size) : c.opened.IsOpen := by
  rw [opened]
  split
  · exact ⟨by simp, by simp [Func.terminator?, Block.empty]⟩
  · rename_i unfinished
    exact ⟨inside, by simpa using unfinished⟩

theorem extends_opened (c : Cursor) : c.func.Extends c.opened.func := by
  rw [opened]
  split
  · exact Func.extends_addBlock c.func "dead"
  · exact Func.Extends.refl c.func

/-- The block to write to keeps its code, unless there is a reason to leave it. -/
theorem code_opened_isPrefix {c' : Cursor} (inside : c.block < c.func.blocks.size)
    (later : c.func.Extends c'.func) (stays : c.IsOpen → c'.block = c.block ∧ c'.IsOpen) :
    c.func.code c.opened.block <+: c'.func.code c'.opened.block := by
  cases ended : c.func.terminator? c.block with
  | none =>
    have open_ : c.IsOpen := ⟨inside, ended⟩
    obtain ⟨same, open'⟩ := stays open_
    rw [opened_eq open_, opened_eq open', same]
    exact later.code c.block
  | some t =>
    -- the block to write to is still to be added
    have fresh : c.func.code c.opened.block = [] := by
      simp [opened, ended, Func.code]
    rw [fresh]
    exact List.nil_prefix

/-- A new block does not move the cursor, which stays inside the function. -/
theorem inside_addBlock (inside : c.block < c.func.blocks.size) (label : String) :
    (c.addBlock label).block < (c.addBlock label).func.blocks.size := by
  rw [addBlock, Func.size_addBlock]
  exact Nat.lt_succ_of_lt inside

section addBlocks

variable (c) (first second third : String)

@[simp] theorem block_addBlocks : (c.addBlocks first second third).block = c.block := rfl

@[simp] theorem size_addBlocks :
    (c.addBlocks first second third).func.blocks.size = c.func.blocks.size + 3 := by
  simp [addBlocks, addBlock]

@[simp] theorem code_addBlocks (k : Nat) :
    (c.addBlocks first second third).func.code k = c.func.code k := by
  simp [addBlocks, addBlock]

@[simp] theorem terminator?_addBlocks (k : Nat) :
    (c.addBlocks first second third).func.terminator? k = c.func.terminator? k := by
  simp [addBlocks, addBlock]

@[simp] theorem slots_addBlocks (k : Nat) :
    (c.addBlocks first second third).func.slots k = c.func.slots k := by
  simp [addBlocks, addBlock]

theorem inside_addBlocks {c : Cursor} (inside : c.block < c.func.blocks.size)
    (first second third : String) :
    (c.addBlocks first second third).block < (c.addBlocks first second third).func.blocks.size :=
  inside_addBlock (inside_addBlock (inside_addBlock inside first) second) third

theorem isOpen_addBlocks (open_ : c.IsOpen) : (c.addBlocks first second third).IsOpen :=
  ⟨inside_addBlocks open_.1 first second third, by simpa using open_.2⟩

theorem extends_addBlocks : c.func.Extends (c.addBlocks first second third).func :=
  ((Func.extends_addBlock _ first).trans (Func.extends_addBlock _ second)).trans
    (Func.extends_addBlock _ third)

end addBlocks

section moves

variable (c) (v : Value) (yes no target next k : Nat)

@[simp] theorem slots_fork : (c.fork v yes no next).func.slots k = c.func.slots k := by
  simp [fork, moveTo, terminate]

@[simp] theorem slots_jump : (c.jump target next).func.slots k = c.func.slots k := by
  rw [jump, moveTo, close]
  split <;> simp [terminate]

end moves

section views

variable (inside : c.block < c.func.blocks.size) {i : Instr} (plain : i.isAlloca = false)
variable (ty : Ty) (name : String) (k : Nat)

include inside

theorem isOpen_push : (c.push i).IsOpen := by
  have open_ := isOpen_opened inside
  exact ⟨by simpa [push] using open_.1, by simpa [push] using open_.2⟩

theorem isOpen_pushResult : (c.pushResult ty name i).IsOpen := by
  have open_ := isOpen_opened inside
  exact ⟨by simpa [pushResult] using open_.1, by simpa [pushResult] using open_.2⟩

include plain

theorem code_push :
    (c.push i).func.code k = if k = (c.push i).block then c.func.code k ++ [i] else c.func.code k := by
  rw [push, Func.code_pushInstr (isOpen_opened inside).1 plain, code_opened]

theorem code_pushResult :
    (c.pushResult ty name i).func.code k =
      if k = (c.pushResult ty name i).block then c.func.code k ++ [i] else c.func.code k := by
  have open_ : (c.opened.func.addLocal name ty).IsOpen c.opened.block := isOpen_opened inside
  rw [pushResult, Func.code_pushInstr open_.1 plain, Func.code_addLocal, code_opened]

theorem extends_push : c.func.Extends (c.push i).func :=
  (extends_opened c).trans (Func.extends_pushInstr (isOpen_opened inside) plain)

theorem extends_pushResult : c.func.Extends (c.pushResult ty name i).func := by
  have open_ : (c.opened.func.addLocal name ty).IsOpen c.opened.block := isOpen_opened inside
  exact ((extends_opened c).trans (Func.extends_addLocal _ name ty)).trans
    (Func.extends_pushInstr open_ plain)

omit plain

theorem extends_terminate (t : Terminator) : c.func.Extends (c.terminate t).func :=
  (extends_opened c).trans (Func.extends_terminate (isOpen_opened inside) t)

theorem extends_fork (v : Value) (yes no next : Nat) :
    c.func.Extends (c.fork v yes no next).func :=
  extends_terminate inside _

theorem extends_jump (target next : Nat) : c.func.Extends (c.jump target next).func := by
  rw [jump, moveTo, close]
  split
  · exact .refl c.func
  · exact extends_terminate inside _

theorem terminator?_terminate (t : Terminator) :
    (c.terminate t).func.terminator? k =
      if k = (c.terminate t).block then some t else c.func.terminator? k := by
  rw [terminate, Func.terminator?_terminate (isOpen_opened inside).1, terminator?_opened]

theorem extends_alloca : c.func.Extends (c.alloca ty name).func := by
  have entry : 0 < (c.func.addLocal name .ptr).blocks.size := Nat.zero_lt_of_lt inside
  exact (Func.extends_addLocal c.func name .ptr).trans (Func.extends_insertSlot entry rfl)

theorem slots_alloca :
    (c.alloca ty name).func.slots k =
      if k = 0 then c.func.slots k ++ [.alloca c.func.locals.size ty] else c.func.slots k := by
  have entry : 0 < (c.func.addLocal name .ptr).blocks.size := Nat.zero_lt_of_lt inside
  rw [alloca, Func.slots_insertSlot entry rfl, Func.slots_addLocal]

end views

/-! ## Open blocks -/

/-- The blocks without a terminator are the current one and some of those in `P`. -/
def OpenWithin (c : Cursor) (P : Nat → Prop) : Prop :=
  ∀ k, c.func.IsOpen k → k = c.block ∨ P k

/-- The blocks without a terminator are some of those in `P`. -/
def Sealed (c : Cursor) (P : Nat → Prop) : Prop :=
  ∀ k, c.func.IsOpen k → P k

variable {P : Nat → Prop}

theorem OpenWithin.opened (within : c.OpenWithin P) : c.opened.OpenWithin P := by
  intro k open_
  rw [Cursor.opened] at open_ ⊢
  split at open_
  · rename_i ended
    rw [if_pos ended]
    obtain ⟨bound, unfinished⟩ := open_
    rw [Func.terminator?_addBlock] at unfinished
    rw [Func.size_addBlock] at bound
    rcases Nat.lt_succ_iff_lt_or_eq.mp bound with old | new
    · rcases within k ⟨old, unfinished⟩ with rfl | inside
      · rw [unfinished] at ended
        cases ended
      · exact .inr inside
    · exact .inl new
  · rename_i unfinished
    rw [if_neg unfinished]
    exact within k open_

theorem OpenWithin.push (within : c.OpenWithin P) (i : Instr) : (c.push i).OpenWithin P := by
  rintro k ⟨bound, unfinished⟩
  exact within.opened k ⟨by simpa [Cursor.push] using bound, by simpa [Cursor.push] using unfinished⟩

theorem OpenWithin.pushResult (within : c.OpenWithin P) (ty : Ty) (name : String) (i : Instr) :
    (c.pushResult ty name i).OpenWithin P := by
  rintro k ⟨bound, unfinished⟩
  exact within.opened k
    ⟨by simpa [Cursor.pushResult] using bound, by simpa [Cursor.pushResult] using unfinished⟩

theorem OpenWithin.alloca (within : c.OpenWithin P) (ty : Ty) (name : String) :
    (c.alloca ty name).OpenWithin P := by
  rintro k ⟨bound, unfinished⟩
  exact within k ⟨by simpa [Cursor.alloca] using bound, by simpa [Cursor.alloca] using unfinished⟩

theorem OpenWithin.addBlock (within : c.OpenWithin P) (label : String) :
    (c.addBlock label).OpenWithin fun k => k = c.func.blocks.size ∨ P k := by
  rintro k ⟨bound, unfinished⟩
  rw [Cursor.addBlock, Func.terminator?_addBlock] at unfinished
  rw [Cursor.addBlock, Func.size_addBlock] at bound
  rcases Nat.lt_succ_iff_lt_or_eq.mp bound with old | new
  · rcases within k ⟨old, unfinished⟩ with here | inside
    · exact .inl here
    · exact .inr (.inr inside)
  · exact .inr (.inl new)

theorem OpenWithin.addBlocks (within : c.OpenWithin P) (first second third : String) :
    (c.addBlocks first second third).OpenWithin fun k => k = c.func.blocks.size ∨
      k = c.func.blocks.size + 1 ∨ k = c.func.blocks.size + 2 ∨ P k := by
  intro k open_
  have three := (((within.addBlock first).addBlock second).addBlock third) k open_
  simp only [Cursor.addBlock, Func.size_addBlock] at three
  rcases three with here | new | new | new | old
  · exact .inl here
  · exact .inr (.inr (.inr (.inl new)))
  · exact .inr (.inr (.inl new))
  · exact .inr (.inl new)
  · exact .inr (.inr (.inr (.inr old)))

theorem OpenWithin.terminate (within : c.OpenWithin P) (inside : c.block < c.func.blocks.size)
    (t : Terminator) : (c.terminate t).Sealed P := by
  rintro k ⟨bound, unfinished⟩
  rw [terminator?_terminate inside] at unfinished
  split at unfinished
  · cases unfinished
  · rename_i other
    have open_ : c.opened.func.IsOpen k :=
      ⟨by simpa [Cursor.terminate] using bound, by rwa [terminator?_opened]⟩
    exact (within.opened k open_).resolve_left other

/-- If the current block has ended, it is none of the open ones. -/
theorem OpenWithin.sealed (within : c.OpenWithin P)
    (ended : (c.func.terminator? c.block).isSome = true) : c.Sealed P := by
  intro k open_
  rcases within k open_ with rfl | inside
  · rw [open_.2] at ended
    cases ended
  · exact inside

theorem OpenWithin.close (within : c.OpenWithin P) (inside : c.block < c.func.blocks.size)
    (t : Terminator) : (c.close t).Sealed P := by
  rw [Cursor.close]
  split
  · exact within.sealed (by assumption)
  · exact within.terminate inside t

theorem Sealed.moveTo {b : Nat} (sealed : c.Sealed fun k => k = b ∨ P k) :
    (c.moveTo b).OpenWithin P :=
  sealed

theorem OpenWithin.fork {next : Nat} (within : c.OpenWithin fun k => k = next ∨ P k)
    (inside : c.block < c.func.blocks.size) (v : Value) (yes no : Nat) :
    (c.fork v yes no next).OpenWithin P :=
  (within.terminate inside _).moveTo

theorem OpenWithin.jump {next : Nat} (within : c.OpenWithin fun k => k = next ∨ P k)
    (inside : c.block < c.func.blocks.size) (target : Nat) : (c.jump target next).OpenWithin P :=
  (within.close inside _).moveTo

/-! ## Blocks that are left alone -/

/-- The block `k` has the same code and the same terminator in both. -/
def Keeps (c c' : Cursor) (k : Nat) : Prop :=
  c'.func.code k = c.func.code k ∧ c'.func.terminator? k = c.func.terminator? k

section keeps

variable {c' c'' : Cursor} {k : Nat}

theorem Keeps.refl (c : Cursor) (k : Nat) : c.Keeps c k :=
  ⟨rfl, rfl⟩

theorem Keeps.trans (first : c.Keeps c' k) (second : c'.Keeps c'' k) : c.Keeps c'' k :=
  ⟨second.1.trans first.1, second.2.trans first.2⟩

/-- The block to write to is the current one or a new one. -/
theorem opened_block (c : Cursor) :
    c.opened.block = c.block ∨ c.opened.block = c.func.blocks.size := by
  rw [opened]
  split
  · exact .inr rfl
  · exact .inl rfl

theorem opened_block_ne (other : k ≠ c.block) (old : k < c.func.blocks.size) :
    k ≠ c.opened.block := by
  rcases opened_block c with same | new
  · exact same ▸ other
  · exact new ▸ Nat.ne_of_lt old

variable (inside : c.block < c.func.blocks.size) (other : k ≠ c.block) (old : k < c.func.blocks.size)

include inside other old

theorem keeps_push {i : Instr} (plain : i.isAlloca = false) : c.Keeps (c.push i) k := by
  refine ⟨?_, by simp [push]⟩
  rw [code_push inside plain]
  exact if_neg (opened_block_ne other old)

theorem keeps_pushResult {i : Instr} (plain : i.isAlloca = false) (ty : Ty) (name : String) :
    c.Keeps (c.pushResult ty name i) k := by
  refine ⟨?_, by simp [pushResult]⟩
  rw [code_pushResult inside plain]
  exact if_neg (opened_block_ne other old)

theorem keeps_terminate (t : Terminator) : c.Keeps (c.terminate t) k := by
  refine ⟨by simp [terminate], ?_⟩
  rw [terminator?_terminate inside]
  exact if_neg (opened_block_ne other old)

theorem keeps_fork (v : Value) (yes no next : Nat) : c.Keeps (c.fork v yes no next) k :=
  keeps_terminate inside other old _

theorem keeps_jump (target next : Nat) : c.Keeps (c.jump target next) k := by
  rw [Keeps, jump, moveTo, close]
  split
  · exact ⟨rfl, rfl⟩
  · exact keeps_terminate inside other old _

end keeps

/-- The block `k` is there and nothing has been written to it. -/
structure Fresh (c : Cursor) (k : Nat) : Prop where
  bound : k < c.func.blocks.size
  code : c.func.code k = []
  open_ : c.func.terminator? k = none

theorem Fresh.keeps {c' : Cursor} {k : Nat} (fresh : c.Fresh k) (keeps : c.Keeps c' k)
    (size : c.func.blocks.size ≤ c'.func.blocks.size) : c'.Fresh k where
  bound := Nat.lt_of_lt_of_le fresh.bound size
  code := keeps.1.trans fresh.code
  open_ := keeps.2.trans fresh.open_

theorem Fresh.fork {k : Nat} (fresh : c.Fresh k) (inside : c.block < c.func.blocks.size)
    (other : k ≠ c.block) (v : Value) (yes no next : Nat) : (c.fork v yes no next).Fresh k :=
  fresh.keeps (keeps_fork inside other fresh.bound v yes no next)
    (extends_fork inside v yes no next).size

theorem Fresh.jump {k : Nat} (fresh : c.Fresh k) (inside : c.block < c.func.blocks.size)
    (other : k ≠ c.block) (target next : Nat) : (c.jump target next).Fresh k :=
  fresh.keeps (keeps_jump inside other fresh.bound target next) (extends_jump inside target next).size

/-- The blocks that have just been added. -/
theorem fresh_addBlocks (c : Cursor) (first second third : String) {k : Nat}
    (new : c.func.blocks.size ≤ k) (bound : k < c.func.blocks.size + 3) :
    (c.addBlocks first second third).Fresh k where
  bound := by simpa using bound
  code := by
    rw [code_addBlocks, Func.code, Array.getElem?_eq_none new]
    rfl
  open_ := by
    rw [terminator?_addBlocks, Func.terminator?, Array.getElem?_eq_none new]
    rfl

/-- What writing a statement does to the blocks: of those that were there it writes to the
    current one only, and it leaves no other open that was not open before. -/
structure Advances (c c' : Cursor) : Prop where
  moves : c'.block = c.block ∨ c.func.blocks.size ≤ c'.block
  elsewhere : ∀ k, k < c.func.blocks.size → k ≠ c.block → c.Keeps c' k
  pending : ∀ P, c.OpenWithin P → c'.OpenWithin P

namespace Advances

variable {c' c'' : Cursor}

theorem refl (c : Cursor) : c.Advances c where
  moves := .inl rfl
  elsewhere k _ _ := .refl c k
  pending _ within := within

theorem block_ne (step : c.Advances c') {k : Nat} (other : k ≠ c.block)
    (old : k < c.func.blocks.size) : k ≠ c'.block := by
  rcases step.moves with same | new
  · exact same ▸ other
  · exact Nat.ne_of_lt (Nat.lt_of_lt_of_le old new)

theorem trans (first : c.Advances c') (second : c'.Advances c'')
    (size : c.func.blocks.size ≤ c'.func.blocks.size) : c.Advances c'' where
  moves := by
    rcases second.moves with same | new
    · exact same ▸ first.moves
    · exact .inr (Nat.le_trans size new)
  elsewhere k old other :=
    (first.elsewhere k old other).trans
      (second.elsewhere k (Nat.lt_of_lt_of_le old size) (first.block_ne other old))
  pending P within := second.pending P (first.pending P within)

variable (inside : c.block < c.func.blocks.size)

theorem moves_opened (c : Cursor) :
    c.opened.block = c.block ∨ c.func.blocks.size ≤ c.opened.block :=
  (opened_block c).imp_right fun new => Nat.le_of_eq new.symm

include inside

theorem push {i : Instr} (plain : i.isAlloca = false) : c.Advances (c.push i) where
  moves := moves_opened c
  elsewhere _ old other := keeps_push inside other old plain
  pending _ within := within.push i

theorem pushResult {i : Instr} (plain : i.isAlloca = false) (ty : Ty) (name : String) :
    c.Advances (c.pushResult ty name i) where
  moves := moves_opened c
  elsewhere _ old other := keeps_pushResult inside other old plain ty name
  pending _ within := within.pushResult ty name i

theorem terminate (t : Terminator) : c.Advances (c.terminate t) where
  moves := moves_opened c
  elsewhere _ old other := keeps_terminate inside other old t
  pending _ within k open_ := .inr (within.terminate inside t k open_)

omit inside

theorem alloca (c : Cursor) (ty : Ty) (name : String) : c.Advances (c.alloca ty name) where
  moves := .inl rfl
  elsewhere k _ _ := ⟨Func.code_insertSlot rfl k, by simp [Cursor.alloca]⟩
  pending _ within := within.alloca ty name

end Advances

end Cursor

namespace Emitter

/-- The emitter `e` writes to the function with number `id`, and `c` is its cursor. -/
structure At (e : Emitter) (id : Nat) (c : Cursor) : Prop where
  point : e.point = some ⟨id, c.block⟩
  function : e.module.functions[id]? = some c.func
  inside : c.block < c.func.blocks.size

/-- The emitter with `c` as its cursor, in the function with number `id`. -/
def put (e : Emitter) (id : Nat) (c : Cursor) : Emitter :=
  ⟨{ e.module with functions := e.module.functions.setIfInBounds id c.func }, some ⟨id, c.block⟩⟩

theorem put_put (e : Emitter) (id : Nat) (c c' : Cursor) :
    (e.put id c).put id c' = e.put id c' := by
  simp [put]

variable {e : Emitter} {id : Nat} {c : Cursor}

theorem At.put (here : e.At id c) {c' : Cursor} (inside : c'.block < c'.func.blocks.size) :
    (e.put id c').At id c' where
  point := rfl
  function := by
    have bound := (Array.getElem?_eq_some_iff.mp here.function).1
    simp [Emitter.put, bound]
  inside := inside

theorem At.inside_close (here : e.At id c) (t : Terminator) :
    (c.close t).block < (c.close t).func.blocks.size := by
  rw [Cursor.close]
  split
  · exact here.inside
  · simpa [Cursor.terminate] using (Cursor.isOpen_opened here.inside).1

theorem At.bound (here : e.At id c) : id < e.module.functions.size :=
  (Array.getElem?_eq_some_iff.mp here.function).1

theorem put_self (here : e.At id c) : e.put id c = e := by
  have functions : e.module.functions.setIfInBounds id c.func = e.module.functions := by
    apply Array.ext_getElem?
    intro k
    rw [Array.getElem?_setIfInBounds]
    by_cases same : id = k
    · subst same
      rw [if_pos rfl, if_pos here.bound, here.function]
    · rw [if_neg same]
  rw [put, functions, ← here.point]

/-! ## The actions as changes of the cursor -/

/-- The function with a number that is in use. -/
theorem function_eq_of_found {k : Nat} {f : Func} (found : e.module.functions[k]? = some f) :
    Emitter.function k e = .ok f e := by
  rw [Emitter.function, found]

theorem function_eq (here : e.At id c) : Emitter.function id e = .ok c.func e :=
  function_eq_of_found here.function

theorem currentPoint_eq (here : e.At id c) : currentPoint e = .ok ⟨id, c.block⟩ e := by
  simp [currentPoint, here.point]

theorem currentFunction_eq (here : e.At id c) : currentFunction e = .ok id e := by
  rw [currentFunction, bind_eq_of_ok (currentPoint_eq here)]
  rfl

theorem modifyFunction_eq (here : e.At id c) (change : Func → Func) :
    modifyFunction id change e = .ok () (e.put id ⟨change c.func, c.block⟩) := by
  rw [modifyFunction, Module.modifyFunction_eq here.function, put, here.point]

theorem moveTo_eq (here : e.At id c) (b : Nat) :
    Emitter.moveTo id b e = .ok () (e.put id (c.moveTo b)) := by
  have functions := congrArg (·.module) (put_self here)
  rw [Emitter.moveTo, setPoint, put, Cursor.moveTo]
  simp only [put] at functions
  rw [functions]

theorem appendBlock_eq (here : e.At id c) (label : String) :
    Emitter.appendBlock id label e = .ok c.func.blocks.size (e.put id (c.addBlock label)) := by
  rw [Emitter.appendBlock, bind_eq_of_ok (function_eq here),
    bind_eq_of_ok (modifyFunction_eq here _)]
  rfl

theorem isTerminated_eq (here : e.At id c) :
    isTerminated e = .ok (c.func.terminator? c.block).isSome e := by
  have found := Array.getElem?_eq_getElem here.inside
  rw [isTerminated, bind_eq_of_ok (currentPoint_eq here), bind_eq_of_ok (function_eq here), found,
    Func.terminator?_eq found]
  rfl

theorem param_eq (here : e.At id c) {index : Nat} {p : Param}
    (found : c.func.params[index]? = some p) : param index e = .ok (.param index p.ty) e := by
  rw [param, bind_eq_of_ok (currentFunction_eq here), bind_eq_of_ok (function_eq here), found]
  rfl

theorem openBlock_eq (here : e.At id c) :
    openBlock e = .ok ⟨id, c.opened.block⟩ (e.put id c.opened) := by
  obtain ⟨block, found⟩ : ∃ block, c.func.blocks[c.block]? = some block :=
    ⟨_, Array.getElem?_eq_getElem here.inside⟩
  rw [openBlock, bind_eq_of_ok (currentPoint_eq here), bind_eq_of_ok (function_eq here), found,
    Cursor.opened, Func.terminator?_eq found, ← Block.isTerminated]
  simp only
  split
  · have there : (e.put id (c.addBlock "dead")).At id (c.addBlock "dead") :=
      here.put (by simpa [Cursor.addBlock] using Nat.lt_succ_of_lt here.inside)
    rw [bind_eq_of_ok (appendBlock_eq here _), bind_eq_of_ok (moveTo_eq there _), put_put]
    rfl
  · rw [put_self here]
    rfl

/-- There is a block to write to, or looking for one changes nothing. -/
theorem at_or_openBlock_fails (e : Emitter) :
    (∃ id c, e.At id c) ∨ ∃ error, openBlock e = .error error e := by
  cases here : e.point with
  | none =>
    have failed : currentPoint e = .error .noInsertPoint e := by rw [currentPoint, here]
    exact .inr ⟨_, bind_eq_of_error failed⟩
  | some p =>
    have current : currentPoint e = .ok p e := by rw [currentPoint, here]
    rw [openBlock, bind_eq_of_ok current]
    cases function : e.module.functions[p.function]? with
    | none =>
      have failed : Emitter.function p.function e = .error (.unknownFunction p.function) e := by
        rw [Emitter.function, function]
      exact .inr ⟨_, bind_eq_of_error failed⟩
    | some f =>
      rw [bind_eq_of_ok (function_eq_of_found function)]
      cases found : f.blocks[p.block]? with
      | none => exact .inr ⟨.missingBlock, rfl⟩
      | some block =>
        have inside := (Array.getElem?_eq_some_iff.mp found).1
        exact .inl ⟨p.function, ⟨f, p.block⟩, here, function, inside⟩

theorem At.opened (here : e.At id c) : (e.put id c.opened).At id c.opened := by
  apply here.put
  rw [Cursor.opened]
  split
  · simp
  · exact here.inside

theorem push_eq (here : e.At id c) (i : Instr) :
    Emitter.push i e = .ok () (e.put id (c.push i)) := by
  rw [Emitter.push, bind_eq_of_ok (openBlock_eq here), modifyFunction_eq here.opened, put_put]
  rfl

theorem pushResult_eq (here : e.At id c) (ty : Ty) (name : String) (make : Nat → Instr) :
    Emitter.pushResult ty name make e =
      .ok (.result c.func.locals.size ty)
        (e.put id (c.pushResult ty name (make c.func.locals.size))) := by
  have locals : c.opened.func.locals = c.func.locals := by
    rw [Cursor.opened]
    split <;> rfl
  rw [Emitter.pushResult, bind_eq_of_ok (openBlock_eq here),
    bind_eq_of_ok (function_eq here.opened), bind_eq_of_ok (modifyFunction_eq here.opened _),
    put_put, locals]
  rfl

theorem terminate_eq (here : e.At id c) (t : Terminator) :
    Emitter.terminate t e = .ok () (e.put id (c.terminate t)) := by
  rw [Emitter.terminate, bind_eq_of_ok (openBlock_eq here), modifyFunction_eq here.opened, put_put]
  rfl

theorem alloca_eq (here : e.At id c) (ty : Ty) (name : String) :
    Emitter.alloca ty name e =
      .ok (.result c.func.locals.size .ptr) (e.put id (c.alloca ty name)) := by
  have body : c.func.isDeclaration = false := by
    have := Nat.ne_of_gt (Nat.lt_of_le_of_lt (Nat.zero_le _) here.inside)
    simpa [Func.isDeclaration] using this
  have there : (e.put id ⟨c.func.addLocal name .ptr, c.block⟩).At id
      ⟨c.func.addLocal name .ptr, c.block⟩ := here.put here.inside
  rw [Emitter.alloca, bind_eq_of_ok (currentFunction_eq here), bind_eq_of_ok (function_eq here),
    bind_eq_of_ok (modifyFunction_eq here _), body]
  simp only [Bool.false_eq_true, if_false]
  rw [bind_eq_of_ok (modifyFunction_eq there _), put_put]
  rfl

theorem call_eq (here : e.At id c) {callee : Nat} {g : Func}
    (found : e.module.functions[callee]? = some g) (args : List Value) (name : String) :
    Emitter.call callee args name e =
      if g.returnType = .void then .ok none (e.put id (c.push (.call none callee args)))
      else .ok (some (.result c.func.locals.size g.returnType))
        (e.put id (c.pushResult g.returnType name (.call (some c.func.locals.size) callee args))) := by
  rw [Emitter.call, bind_eq_of_ok (function_eq_of_found found)]
  split
  · rw [bind_eq_of_ok (push_eq here _)]
    rfl
  · rw [bind_eq_of_ok (pushResult_eq here _ _ _)]
    rfl

/-! ## New functions -/

/-- The emitter at the start of a new function. -/
def enter (e : Emitter) (f : Func) : Emitter :=
  ⟨e.module.addFunction (f.addBlock "entry"), some ⟨e.module.functions.size, f.blocks.size⟩⟩

theorem size_functions_enter (e : Emitter) (f : Func) :
    (e.enter f).module.functions.size = e.module.functions.size + 1 := by
  simp [enter, Module.addFunction]

theorem at_enter (e : Emitter) (f : Func) :
    (e.enter f).At e.module.functions.size ⟨f.addBlock "entry", f.blocks.size⟩ where
  point := rfl
  function := by simp [enter, Module.addFunction]
  inside := by simp

/-- The first block of a function that has been added last. -/
theorem appendBlock_addFunction (e : Emitter) (f : Func) :
    Emitter.appendBlock e.module.functions.size "entry"
        { e with module := e.module.addFunction f } =
      .ok f.blocks.size { e with module := e.module.addFunction (f.addBlock "entry") } := by
  have found : (e.module.addFunction f).functions[e.module.functions.size]? = some f := by
    simp [Module.addFunction]
  have changed : (e.module.functions.push f).modify e.module.functions.size
      (fun f => f.addBlock "entry") = e.module.functions.push (f.addBlock "entry") := by
    apply Array.ext_getElem?
    intro k
    rw [Array.getElem?_modify, Array.getElem?_push, Array.getElem?_push]
    by_cases last : k = e.module.functions.size
    · simp [last]
    · simp [last, Ne.symm last]
  rw [Emitter.appendBlock, bind_eq_of_ok (function_eq_of_found found)]
  simp only [Module.addFunction, bind, EStateM.bind, modifyFunction, Module.modifyFunction, changed]
  rfl

end Emitter

end ImpCompiler.Ssa
