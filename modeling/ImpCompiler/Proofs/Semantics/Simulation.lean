import ImpCompiler.Proofs.Lowering.Runs
import ImpCompiler.Proofs.Semantics.Machine

/-! # Programs and their functions side by side

A cursor of a function under construction is also a place in the finished function: behind what
had been written to its block at that time.  `Activation.resume` executes from there on.

`Frame.Shows` relates the frame of an activation to the state of the program: slots hold what
variables have, the trace is the same, and the locals of all slots, also of those that are made
for later statements, hold their places.

`Activation.Simulates` is the relation between the evaluation of an expression and the code for it,
`Activation.Realises` the one between a statement and its code.  Both say what happens in
either direction: if the program is stuck, or does not end, so is or does the function. -/

namespace ImpCompiler

open Ssa

variable {R A : Type}

/-! ## Places in a function -/

namespace Ssa

/-- The instructions of the finished function `F` behind the cursor `c`. -/
def Func.rest (F : Func) (c : Cursor) : List Instr :=
  (F.code c.block).drop (c.func.code c.block).length

theorem Func.rest_of_code {F : Func} {c c' : Cursor} {is : List Instr} (block : c'.block = c.block)
    (code : c'.func.code c.block = c.func.code c.block ++ is) (later : c'.func.Extends F) :
    F.rest c = is ++ F.rest c' := by
  obtain ⟨behind, all⟩ := later.code c.block
  rw [Func.rest, Func.rest, block, ← all, List.drop_left, code, List.append_assoc, List.drop_left]

/-- Nothing stands behind the end of a block. -/
theorem Func.rest_terminate {F : Func} {c : Cursor} {t : Terminator} (open_ : c.IsOpen)
    (later : (c.terminate t).func.Extends F) : F.rest c = [] ∧ F.terminator? c.block = some t := by
  have ends : (c.terminate t).func.terminator? c.block = some t := by
    rw [Cursor.terminator?_terminate open_.1, if_pos (Cursor.block_terminate open_ t).symm]
  have code : (c.terminate t).func.code c.block = c.func.code c.block := by simp [Cursor.terminate]
  obtain ⟨ends', same⟩ := later.terminated c.block t ends
  exact ⟨by rw [Func.rest, same, code, List.drop_length], ends'⟩

/-- A place where control can go: the start of a block that is not the first one. -/
structure Cursor.Starts (c : Cursor) (F : Func) : Prop where
  notEntry : c.block ≠ 0
  bound : c.block < F.blocks.size
  empty : c.func.code c.block = []

theorem Cursor.Fresh.isOpen {c : Cursor} (fresh : c.Fresh c.block) : c.IsOpen :=
  ⟨fresh.bound, fresh.open_⟩

theorem Cursor.Fresh.starts {c : Cursor} {F : Func} (fresh : c.Fresh c.block)
    (notEntry : c.block ≠ 0) (later : c.func.Extends F) : c.Starts F where
  notEntry := notEntry
  bound := Nat.lt_of_lt_of_le fresh.bound later.size
  empty := fresh.code

namespace Activation

variable (act : Activation R A) (F : Func)

/-- Executes the function `F` from the cursor `c` on. -/
def resume (fuel : Nat) (c : Cursor) (frame : Frame R A) : Option (List (Event R A) × Val R A) :=
  act.run F fuel c.block (F.rest c) frame

/-- Execution comes from the one place to the other, over `jumps` ends of blocks. -/
def Leads (jumps : Nat) (c : Cursor) (frame : Frame R A) (c' : Cursor) (frame' : Frame R A) : Prop :=
  ∀ fuel, act.resume F (fuel + jumps) c frame = act.resume F fuel c' frame'

/-- Execution ends with no result. -/
def Stuck (c : Cursor) (frame : Frame R A) : Prop :=
  ∀ fuel, act.resume F fuel c frame = none

variable {act} {F} {c c' c'' : Cursor} {frame frame' frame'' : Frame R A}

theorem Leads.trans {jumps jumps' : Nat} (first : act.Leads F jumps c frame c' frame')
    (second : act.Leads F jumps' c' frame' c'' frame'') :
    act.Leads F (jumps' + jumps) c frame c'' frame'' := by
  intro fuel
  rw [← Nat.add_assoc, first, second]

theorem Leads.stuck (first : act.Leads F 0 c frame c' frame') (stuck : act.Stuck F c' frame') :
    act.Stuck F c frame :=
  fun fuel => (first fuel).trans (stuck fuel)

/-- An instruction is executed. -/
theorem resume_instr {fuel : Nat} {i : Instr} (block : c'.block = c.block)
    (code : c'.func.code c.block = c.func.code c.block ++ [i]) (later : c'.func.Extends F) :
    act.resume F fuel c frame = (act.exec frame i).bind fun frame' => act.resume F fuel c' frame' := by
  rw [resume, Func.rest_of_code block code later, List.singleton_append, run_cons]
  simp only [resume, block]

/-- Nothing was written. -/
theorem leads_of_code (block : c'.block = c.block) (code : c'.func.code c.block = c.func.code c.block)
    (later : c'.func.Extends F) : act.Leads F 0 c frame c' frame := by
  intro fuel
  have same : c'.func.code c.block = c.func.code c.block ++ [] := by rw [code, List.append_nil]
  rw [Nat.add_zero, resume, Func.rest_of_code block same later, List.nil_append, resume, block]

/-- The end of a block leads to the start of another one. -/
theorem leads_terminate (sound : F.Sound act.module) (open_ : c.IsOpen) {t : Terminator}
    (returns : ∀ value, t ≠ .ret value) (later : (c.terminate t).func.Extends F)
    (next : act.next frame t = some c'.block) (starts : c'.Starts F) :
    act.Leads F 1 c frame c' frame := by
  intro fuel
  obtain ⟨rest, ends⟩ := Func.rest_terminate open_ later
  obtain ⟨block, found⟩ : ∃ block, F.blocks[c'.block]? = some block :=
    ⟨_, Array.getElem?_eq_getElem starts.bound⟩
  have code : block.instrs.toList = F.rest c' := by
    -- slots stand in the first block only
    rw [← Block.slots_append_code, ← Func.slots_eq found, sound.entry _ starts.notEntry,
      List.nil_append, ← Func.code_eq found, Func.rest, starts.empty, List.length_nil, List.drop_zero]
  rw [resume, rest, run_next ends returns, next]
  simp only [Option.bind_some, found, code, resume]

theorem leads_jump (sound : F.Sound act.module) (open_ : c.IsOpen) {target next : Nat}
    (later : (c.jump target next).func.Extends F) (there : c'.block = target) (starts : c'.Starts F) :
    act.Leads F 1 c frame c' frame := by
  have same : (c.jump target next).func = (c.terminate (.branch target)).func := by
    rw [Cursor.jump, Cursor.moveTo, Cursor.close, open_.2]
    rfl
  rw [same] at later
  apply leads_terminate sound open_ (fun _ => Terminator.noConfusion) later _ starts
  rw [there]
  rfl

theorem leads_fork (sound : F.Sound act.module) (open_ : c.IsOpen) {v : Value} {yes no next : Nat}
    (later : (c.fork v yes no next).func.Extends F) {b : Bool}
    (read : act.read frame v = some (.ofBool b)) (there : c'.block = if b then yes else no)
    (starts : c'.Starts F) : act.Leads F 1 c frame c' frame := by
  have ends : (c.terminate (.condBranch v yes no)).func.Extends F := later
  apply leads_terminate sound open_ (fun _ => Terminator.noConfusion) ends _ starts
  rw [there, Activation.next, read]
  cases b <;> rfl

/-- The end of a function gives a result. -/
theorem resume_ret (open_ : c.IsOpen) {value : Option Value}
    (later : (c.terminate (.ret value)).func.Extends F) (fuel : Nat) :
    act.resume F (fuel + 1) c frame =
      (value.bind (act.read frame)).map fun x => (frame.trace, x) := by
  obtain ⟨rest, ends⟩ := Func.rest_terminate open_ later
  rw [resume, rest, run_ret ends]

end Activation

/-! ## Frames and states -/

/-- The frame of an activation of `F` shows the state of the program. -/
structure Frame.Shows (frame : Frame R A) (F : Func) (σ : State R A) : Prop where
  store : frame.slots = σ.store
  trace : frame.trace = σ.trace
  places : ∀ (k id : Nat) (ty : Ty), (F.slots 0)[k]? = some (.alloca id ty) →
    frame.locals id = some (.slot k)
  numbers : ∀ k x, σ.store k = some x → x.ty = .i32

/-- The frame has the same locals as an earlier one, up to `bound`. -/
def Frame.Agrees (frame earlier : Frame R A) (bound : Nat) : Prop :=
  ∀ id, id < bound → frame.locals id = earlier.locals id

theorem Frame.Agrees.trans {frame earlier first : Frame R A} {bound bound' : Nat}
    (agrees : frame.Agrees earlier bound') (before : earlier.Agrees first bound)
    (more : bound ≤ bound') : frame.Agrees first bound :=
  fun id below => (agrees id (Nat.lt_of_lt_of_le below more)).trans (before id below)

/-- What is asked of a function for its activations to follow the program. -/
structure Activation.CanRun (act : Activation R A) (F : Func) : Prop where
  sound : F.Sound act.module
  numbers : ∀ id ty, F.HasSlot id ty → ty = .i32

namespace Activation

/-! ## Expressions -/

section simulates

variable {α β : Type}

/-- Between the two cursors stands the code for an expression with this meaning; `post` relates
    its value to the frame behind it. -/
def Simulates (act : Activation R A) (F : Func) (c c' : Cursor) (frame : Frame R A)
    (meaning : Option (α × State R A)) (post : α → Frame R A → Prop) : Prop :=
  match meaning with
  | none => act.Stuck F c frame
  | some (x, σ') => ∃ frame', act.Leads F 0 c frame c' frame' ∧ frame'.Shows F σ' ∧
      frame'.Agrees frame c.func.locals.size ∧ post x frame'

variable {act : Activation R A} {F : Func} {c c' c'' : Cursor} {frame : Frame R A}
variable {meaning : Option (α × State R A)} {post : α → Frame R A → Prop}

theorem Simulates.mono {post' : α → Frame R A → Prop} (sim : act.Simulates F c c' frame meaning post)
    (weaker : ∀ x frame', post x frame' → post' x frame') :
    act.Simulates F c c' frame meaning post' := by
  match meaning, sim with
  | none, stuck => exact stuck
  | some (x, σ'), ⟨frame', leads, shows, agrees, result⟩ =>
    exact ⟨frame', leads, shows, agrees, weaker x frame' result⟩

/-- The locals that were there keep what they hold. -/
theorem Simulates.agreeing (sim : act.Simulates F c c' frame meaning post) :
    act.Simulates F c c' frame meaning
      fun x frame' => post x frame' ∧ frame'.Agrees frame c.func.locals.size := by
  match meaning, sim with
  | none, stuck => exact stuck
  | some (x, σ'), ⟨frame', leads, shows, agrees, result⟩ =>
    exact ⟨frame', leads, shows, agrees, result, agrees⟩

theorem Simulates.bind {next : α × State R A → Option (β × State R A)} {post' : β → Frame R A → Prop}
    (first : act.Simulates F c c' frame meaning post)
    (more : c.func.locals.size ≤ c'.func.locals.size)
    (rest : ∀ x σ' frame', frame'.Shows F σ' → post x frame' →
      act.Simulates F c' c'' frame' (next (x, σ')) post') :
    act.Simulates F c c'' frame (meaning >>= next) post' := by
  match meaning, first with
  | none, stuck => exact stuck
  | some (x, σ'), ⟨frame', leads, shows, agrees, result⟩ =>
    have second := rest x σ' frame' shows result
    show act.Simulates F c c'' frame (next (x, σ')) post'
    match next (x, σ'), second with
    | none, stuck => exact leads.stuck stuck
    | some (y, σ''), ⟨frame'', leads', shows', agrees', result'⟩ =>
      exact ⟨frame'', leads.trans leads', shows', agrees'.trans agrees more, result'⟩

/-- Execution first comes to another place. -/
theorem Simulates.after (leads : act.Leads F 0 c frame c' frame)
    (more : c.func.locals.size ≤ c'.func.locals.size)
    (sim : act.Simulates F c' c'' frame meaning post) : act.Simulates F c c'' frame meaning post := by
  match meaning, sim with
  | none, stuck => exact leads.stuck stuck
  | some (x, σ'), ⟨frame', leads', shows, agrees, result⟩ =>
    have agrees' := agrees.trans (fun _ _ => rfl : frame.Agrees frame c.func.locals.size) more
    exact ⟨frame', leads.trans leads', shows, agrees', result⟩

/-- Nothing is written for a value that is known. -/
theorem simulates_pure {x : α} {σ : State R A} (block : c'.block = c.block)
    (code : c'.func.code c.block = c.func.code c.block) (later : c'.func.Extends F)
    (shows : frame.Shows F σ) (result : post x frame) :
    act.Simulates F c c' frame (some (x, σ)) post :=
  ⟨frame, leads_of_code block code later, shows, fun _ _ => rfl, result⟩

/-- One instruction is written. -/
theorem simulates_instr {i : Instr} {after : α × State R A → Frame R A} (block : c'.block = c.block)
    (code : c'.func.code c.block = c.func.code c.block ++ [i]) (later : c'.func.Extends F)
    (exec : act.exec frame i = meaning.map after)
    (result : ∀ x σ', meaning = some (x, σ') → (after (x, σ')).Shows F σ' ∧
      (after (x, σ')).Agrees frame c.func.locals.size ∧ post x (after (x, σ'))) :
    act.Simulates F c c' frame meaning post := by
  have step : ∀ fuel, act.resume F fuel c frame =
      (act.exec frame i).bind fun frame' => act.resume F fuel c' frame' :=
    fun _ => resume_instr block code later
  match meaning with
  | none =>
    intro fuel
    rw [step, exec]
    rfl
  | some (x, σ') =>
    refine ⟨after (x, σ'), fun fuel => ?_, result x σ' rfl⟩
    rw [Nat.add_zero, step, exec]
    rfl

/-- An instruction without a result is executed. -/
theorem simulates_push {i : Instr} {after : α × State R A → Frame R A} (open_ : c.IsOpen)
    (plain : i.isAlloca = false) (later : (c.push i).func.Extends F)
    (exec : act.exec frame i = meaning.map after)
    (result : ∀ x σ', meaning = some (x, σ') → (after (x, σ')).Shows F σ' ∧
      (after (x, σ')).Agrees frame c.func.locals.size ∧ post x (after (x, σ'))) :
    act.Simulates F c (c.push i) frame meaning post := by
  have block := Cursor.block_push open_ i
  have code : (c.push i).func.code c.block = c.func.code c.block ++ [i] := by
    rw [Cursor.code_push open_.1 plain, if_pos block.symm]
  exact simulates_instr block code later exec result

end simulates

/-! ## Statements -/

/-- Between the two cursors stands the code for a statement that can complete in these ways. -/
structure Realises (act : Activation R A) (F : Func) (c c' : Cursor) (frame : Frame R A)
    (completes : Completion R A → Prop) : Prop where
  normal : ∀ σ', completes (.normal σ') → c'.IsOpen ∧
    ∃ jumps frame', act.Leads F jumps c frame c' frame' ∧ frame'.Shows F σ'
  returned : ∀ t v, completes (.returned t v) → ∃ fuel, act.resume F fuel c frame = some (t, v)
  /-- The function does nothing else: if it ends from here on, the statement returns, or
      completes and the function ends from there on. -/
  complete : ∀ fuel t v, act.resume F fuel c frame = some (t, v) → completes (.returned t v) ∨
    ∃ σ' frame' fuel', completes (.normal σ') ∧ frame'.Shows F σ' ∧ fuel' ≤ fuel ∧
      act.resume F fuel' c' frame' = some (t, v)

/-- Between the cursor and those of two blocks stands the code for a condition. -/
def Decides (act : Activation R A) (F : Func) (c yes no : Cursor) (frame : Frame R A)
    (test : Option (Bool × State R A)) : Prop :=
  match test with
  | none => act.Stuck F c frame
  | some (b, σ') => ∃ frame', act.Leads F 1 c frame (if b then yes else no) frame' ∧ frame'.Shows F σ'

section realises

variable {act : Activation R A} {F : Func} {c c' c'' : Cursor} {frame frame' : Frame R A}
variable {completes : Completion R A → Prop}

/-- A condition has been computed, and a branch follows. -/
theorem Simulates.decides {yes no : Cursor} {test : Option (Bool × State R A)}
    {post : Bool → Frame R A → Prop} (sim : act.Simulates F c c' frame test post)
    (forks : ∀ b frame', post b frame' → act.Leads F 1 c' frame' (if b then yes else no) frame') :
    act.Decides F c yes no frame test := by
  match test, sim with
  | none, stuck => exact stuck
  | some (b, σ'), ⟨frame', leads, shows, _, read⟩ =>
    exact ⟨frame', leads.trans (forks b frame' read), shows⟩

/-- Where execution is stuck, nothing may be completed. -/
theorem Realises.of_stuck (stuck : act.Stuck F c frame) (never : ∀ o, ¬ completes o) :
    act.Realises F c c' frame completes where
  normal _ done := absurd done (never _)
  returned _ _ done := absurd done (never _)
  complete fuel _ _ ends := nomatch (stuck fuel).symm.trans ends

/-- Where only an expression is evaluated, the statement completes if that has a value. -/
theorem Simulates.realises {α : Type} {meaning : Option (α × State R A)} {post : α → Frame R A → Prop}
    (sim : act.Simulates F c c' frame meaning post) (open' : c'.IsOpen) :
    act.Realises F c c' frame fun o => ∃ x σ', meaning = some (x, σ') ∧ o = .normal σ' := by
  match meaning, sim with
  | none, stuck => exact .of_stuck stuck fun _ ⟨_, _, same, _⟩ => nomatch same
  | some (x, σ'), ⟨frame', leads, shows, _, _⟩ =>
    exact
      { normal := by
          rintro _ ⟨_, _, ⟨⟩, ⟨⟩⟩
          exact ⟨open', 0, frame', leads, shows⟩
        returned := by rintro _ _ ⟨_, _, _, ⟨⟩⟩
        complete := fun fuel t v ends =>
          .inr ⟨σ', frame', fuel, ⟨x, σ', rfl, rfl⟩, shows, Nat.le_refl _, (leads fuel).symm.trans ends⟩ }

theorem Realises.congr {completes' : Completion R A → Prop}
    (realises : act.Realises F c c' frame completes) (same : ∀ o, completes o ↔ completes' o) :
    act.Realises F c c' frame completes' :=
  funext (fun o => propext (same o)) ▸ realises

/-- Execution first comes to another place. -/
theorem Realises.after {jumps : Nat} (few : jumps ≤ 1) (leads : act.Leads F jumps c frame c' frame')
    (realises : act.Realises F c' c'' frame' completes) : act.Realises F c c'' frame completes where
  normal σ' done := by
    obtain ⟨open_, jumps', frame'', leads', shows⟩ := realises.normal σ' done
    exact ⟨open_, _, frame'', leads.trans leads', shows⟩
  returned t v done := by
    obtain ⟨fuel, ends⟩ := realises.returned t v done
    exact ⟨fuel + jumps, (leads fuel).trans ends⟩
  complete fuel t v ends := by
    -- with no fuel nothing ends, so there is enough for the jump
    have enough : jumps ≤ fuel := by
      cases fuel with
      | zero => cases ends
      | succ fuel => omega
    obtain ⟨less, rfl⟩ := Nat.exists_eq_add_of_le' enough
    rw [leads] at ends
    rcases realises.complete less t v ends with done | ⟨σ', frame'', fuel', done, shows, le, ends'⟩
    · exact .inl done
    · exact .inr ⟨σ', frame'', fuel', done, shows, by omega, ends'⟩

/-- Execution then comes to another place. -/
theorem Realises.before {jumps : Nat} (few : jumps ≤ 1)
    (realises : act.Realises F c c' frame completes)
    (leads : ∀ frame', c'.IsOpen → act.Leads F jumps c' frame' c'' frame') (open' : c''.IsOpen) :
    act.Realises F c c'' frame completes where
  normal σ' done := by
    obtain ⟨open_, jumps', frame', leads', shows⟩ := realises.normal σ' done
    exact ⟨open', _, frame', leads'.trans (leads frame' open_), shows⟩
  returned := realises.returned
  complete fuel t v ends := by
    rcases realises.complete fuel t v ends with done | ⟨σ', frame', fuel', done, shows, le, ends'⟩
    · exact .inl done
    · have enough : jumps ≤ fuel' := by
        cases fuel' with
        | zero => cases ends'
        | succ fuel' => omega
      obtain ⟨less, rfl⟩ := Nat.exists_eq_add_of_le' enough
      rw [leads frame' (realises.normal σ' done).1] at ends'
      exact .inr ⟨σ', frame', less, done, shows, by omega, ends'⟩

theorem Realises.andThen {first second : Behaviour R A} {σ : State R A}
    (realises : act.Realises F c c' frame (first σ))
    (rest : ∀ σ' frame', c'.IsOpen → frame'.Shows F σ' → act.Realises F c' c'' frame' (second σ')) :
    act.Realises F c c'' frame (first.andThen second σ) where
  normal σ'' done := by
    rcases done with ⟨σ', done, done'⟩ | ⟨_, _, ⟨⟩, _⟩
    obtain ⟨open_, jumps, frame', leads, shows⟩ := realises.normal σ' done
    obtain ⟨open', jumps', frame'', leads', shows'⟩ := (rest σ' frame' open_ shows).normal σ'' done'
    exact ⟨open', _, frame'', leads.trans leads', shows'⟩
  returned t v done := by
    rcases done with ⟨σ', done, done'⟩ | ⟨_, _, ⟨⟩, done⟩
    · obtain ⟨open_, jumps, frame', leads, shows⟩ := realises.normal σ' done
      obtain ⟨fuel, ends⟩ := (rest σ' frame' open_ shows).returned t v done'
      exact ⟨fuel + jumps, (leads fuel).trans ends⟩
    · exact realises.returned t v done
  complete fuel t v ends := by
    rcases realises.complete fuel t v ends with done | ⟨σ', frame', fuel', done, shows, le, ends'⟩
    · exact .inl (.inr ⟨t, v, rfl, done⟩)
    -- what the function does from the middle on, the second statement does
    · have second' := rest σ' frame' (realises.normal σ' done).1 shows
      rcases second'.complete fuel' t v ends' with done' | ⟨σ'', frame'', fuel'', done', rest'⟩
      · exact .inl (.inl ⟨σ', done, done'⟩)
      · obtain ⟨shows', le', ends''⟩ := rest'
        exact .inr ⟨σ'', frame'', fuel'', .inl ⟨σ', done, done'⟩, shows', Nat.le_trans le' le, ends''⟩

/-- One of two branches is taken. -/
theorem Decides.branch {yes no join : Cursor} {test : Option (Bool × State R A)}
    {first second : Behaviour R A} (decides : act.Decides F c yes no frame test)
    (realises : ∀ σ frame, frame.Shows F σ → act.Realises F yes join frame (first σ))
    (realises' : ∀ σ frame, frame.Shows F σ → act.Realises F no join frame (second σ)) :
    act.Realises F c join frame fun o =>
      ∃ b σ', test = some (b, σ') ∧ if b then first σ' o else second σ' o := by
  match test, decides with
  | none, stuck => exact .of_stuck stuck fun _ ⟨_, _, same, _⟩ => nomatch same
  | some (true, σ'), ⟨frame', leads, shows⟩ =>
    apply ((realises σ' frame' shows).after (Nat.le_refl 1) leads).congr
    simp
  | some (false, σ'), ⟨frame', leads, shows⟩ =>
    apply ((realises' σ' frame' shows).after (Nat.le_refl 1) leads).congr
    simp

section loop

variable {body after : Cursor} {test : State R A → Option (Bool × State R A)} {round : Behaviour R A}
variable (decides : ∀ σ frame, frame.Shows F σ → act.Decides F c body after frame (test σ))
variable (rounds : ∀ σ frame, frame.Shows F σ → act.Realises F body c frame (round σ))

include decides rounds

/-- What a loop does is done. -/
theorem loop_forward {σ : State R A} {o : Completion R A} (runs : Behaviour.loop test round σ o)
    (shows : frame.Shows F σ) :
    match o with
    | .normal σ' => ∃ jumps frame', act.Leads F jumps c frame after frame' ∧ frame'.Shows F σ'
    | .returned t v => ∃ fuel, act.resume F fuel c frame = some (t, v) := by
  induction runs generalizing frame with
  | @stop σ σ' ends =>
    have decided := decides σ frame shows
    rw [ends] at decided
    obtain ⟨frame', leads, shows'⟩ := decided
    exact ⟨1, frame', leads, shows'⟩
  | @again σ σ₁ σ₂ o holds round' rest ih =>
    have decided := decides σ frame shows
    rw [holds] at decided
    obtain ⟨frame₁, leads, shows₁⟩ := decided
    obtain ⟨_, jumps, frame₂, leads', shows₂⟩ := (rounds σ₁ frame₁ shows₁).normal σ₂ round'
    have whole := leads.trans leads'
    -- one round leads back to the condition
    cases o with
    | normal σ' =>
      obtain ⟨jumps', frame', leads'', shows'⟩ := ih shows₂
      exact ⟨_, frame', whole.trans leads'', shows'⟩
    | returned t v =>
      obtain ⟨fuel, ends⟩ := ih shows₂
      exact ⟨_, (whole fuel).trans ends⟩
  | @leave σ σ₁ t v holds round' =>
    have decided := decides σ frame shows
    rw [holds] at decided
    obtain ⟨frame₁, leads, shows₁⟩ := decided
    obtain ⟨fuel, ends⟩ := (rounds σ₁ frame₁ shows₁).returned t v round'
    exact ⟨_, (leads fuel).trans ends⟩

/-- Nothing else is done. -/
theorem loop_complete (fuel : Nat) {σ : State R A} (shows : frame.Shows F σ)
    {t : List (Event R A)} {v : Val R A} (ends : act.resume F fuel c frame = some (t, v)) :
    Behaviour.loop test round σ (.returned t v) ∨
      ∃ σ' frame' fuel', Behaviour.loop test round σ (.normal σ') ∧ frame'.Shows F σ' ∧
        fuel' ≤ fuel ∧ act.resume F fuel' after frame' = some (t, v) := by
  induction fuel using Nat.strongRecOn generalizing frame σ with
  | ind fuel ih =>
    -- the induction is on the fuel, of which each round takes some
    obtain ⟨less, rfl⟩ : ∃ less, fuel = less + 1 := by
      cases fuel with
      | zero => cases ends
      | succ less => exact ⟨less, rfl⟩
    have decided := decides σ frame shows
    match tested : test σ with
    | none =>
      rw [tested] at decided
      cases (decided (less + 1)).symm.trans ends
    | some (false, σ') =>
      rw [tested] at decided
      obtain ⟨frame', leads, shows'⟩ := decided
      exact .inr ⟨σ', frame', less, .stop tested, shows', Nat.le_succ _, (leads less).symm.trans ends⟩
    | some (true, σ₁) =>
      rw [tested] at decided
      obtain ⟨frame₁, leads, shows₁⟩ := decided
      have ends₁ := (leads less).symm.trans ends
      rcases (rounds σ₁ frame₁ shows₁).complete less t v ends₁ with done | ⟨σ₂, frame₂, left, done⟩
      · exact .inl (.leave tested done)
      · -- a round uses up fuel
        obtain ⟨done, shows₂, le, ends₂⟩ := done
        rcases ih left (by omega) shows₂ ends₂ with done' | ⟨σ', frame', fuel', done', shows', le', last⟩
        · exact .inl (.again tested done done')
        · exact .inr ⟨σ', frame', fuel', .again tested done done', shows', by omega, last⟩

/-- A loop is realised by the code for its condition and that for its body. -/
theorem realises_loop (open' : after.IsOpen) {σ : State R A} (shows : frame.Shows F σ) :
    act.Realises F c after frame (Behaviour.loop test round σ) where
  normal _ runs := ⟨open', loop_forward decides rounds runs shows⟩
  returned _ _ runs := loop_forward decides rounds runs shows
  complete fuel _ _ ends := loop_complete decides rounds fuel shows ends

end loop

end realises

end Activation

end Ssa

end ImpCompiler
