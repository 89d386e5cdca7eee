import ImpCompiler.Compilation
import ImpCompiler.Proofs.Lowering.Context
import ImpCompiler.Proofs.Lowering.Definitions
import ImpCompiler.Proofs.Ssa.Initialised
import ImpCompiler.Proofs.Tree.Braced

/-! # Programs that are parsed read no slot before it is stored to

A slot is made at the start of its function, but the first value is stored to it where the variable
is declared.  So it has to be shown that control does not come to a use of the variable on
a way around its declaration: where a variable is visible, its slot is live.

That rests on where declarations stand.  If a branch were a declaration by itself, the variable
would stay visible behind the branches, but only on one of the two ways would it have a
value.  What a statement declares is known from how lowering is put together (`stmt_declares`); what its
blocks do to the slots is followed from statement to statement, since it depends on the form that branches
and loops give to the control flow. -/

namespace ImpCompiler

open Ssa

/-- The slots of all visible variables have the property. -/
def LowerState.Visible (s : LowerState) (property : Nat → Prop) : Prop :=
  ∀ name binding slot, s.scopes.lookup name = some binding → binding.slot = .result slot .ptr →
    property slot

/-- The slots of all visible variables are live. -/
structure LowerState.Safe (s : LowerState) (c : Cursor) (known : Nat → Nat → Prop) : Prop where
  inits : c.func.Initialises known
  visible : s.Visible (c.Live known)

namespace Lower

variable {bad bad' : Prop} {id : Nat} {s s' : LowerState} {c c' : Cursor}
variable {known : Nat → Nat → Prop}

theorem lt_size_of_sound {f : Func} {m : Module} (sound : f.Sound m) :
    ∀ b t target, f.terminator? b = some t → target ∈ t.successors → target < f.blocks.size :=
  fun b t _ ends edge => ((sound.terminators b t ends).target edge).lt_size

/-- The action keeps the slots of visible variables live. -/
def Carries (action : Lower Unit) : Prop :=
  ∀ ⦃s s' id c c' known⦄, s.Ready id c → s.Safe c known → action s = .ok () s' →
    s'.emitter.At id c' → ∃ known', s'.Safe c' known' ∧ c.Flows known c' known'

/-- The action does that, and declares no variable in the scope around it. -/
structure Contained (action : Lower Unit) : Prop where
  carries : Carries action
  declares : Declares (fun _ => False) action

/-- Where the current block has ended, what is written cannot be reached. -/
theorem StmtStep.safe_of_closed (step : StmtStep bad id s c s' c') (ready : s.Ready id c)
    (safe : s.Safe c known) (closed : ¬ c.IsOpen) :
    ∃ known', s'.Safe c' known' ∧ c.Flows known c' known' := by
  have later := step.func ready
  have inside := ready.here.inside
  obtain ⟨t, ends⟩ : ∃ t, c.func.terminator? c.block = some t := by
    cases ends : c.func.terminator? c.block with
    | none => exact absurd ⟨inside, ends⟩ closed
    | some t => exact ⟨t, rfl⟩
  have ends' := later.terminated c.block t ends
  -- so of the blocks that are new anything may be said
  have live : ∀ slot, c'.Live (extendKnown known c.func.blocks.size fun _ => True) slot := by
    intro slot open'
    cases step.advances.moves with
    | inl same =>
      have none := open'.2
      rw [same, ends'.1] at none
      cases none
    | inr new =>
      rw [extendKnown_new _ new]
      exact .inl trivial
  refine ⟨_, ⟨?_, fun _ _ slot _ _ => live slot⟩,
    fun b old => extendKnown_old (fun _ => True) old, fun slot _ => live slot⟩
  apply Cursor.initialises_of_advances safe.inits inside later step.advances
  · exact lt_size_of_sound (step.ready.sound.functions id c'.func step.ready.here.function)
  · rw [ends, ends'.1]
  · intro k result ty slot load new
    rw [ends'.2] at load
    exact absurd (List.getElem?_eq_some_iff.mp load).1 (Nat.not_lt.mpr new)

theorem ExprStep.safe (step : ExprStep id s c s' c') (ready : s.Ready id c) (safe : s.Safe c known) :
    ∃ known', s'.Safe c' known' ∧ c.Flows known c' known' := by
  by_cases open_ : c.IsOpen
  -- the block stays, and what was stored to before still is
  · have later := step.func ready
    have inside := ready.here.inside
    obtain ⟨block, open'⟩ := step.stays open_
    have live : ∀ slot, c.Live known slot →
        c'.Live (extendKnown known c.func.blocks.size fun _ => True) slot := by
      intro slot live _
      rw [block, extendKnown_old _ inside]
      apply (live open_).imp_right
      exact fun stored => stored.mono fun i member => (later.code c.block).subset member
    refine ⟨_, ⟨?_, ?_⟩, fun b old => extendKnown_old (fun _ => True) old, live⟩
    · apply Cursor.initialises_of_advances safe.inits inside later step.advances
      · exact lt_size_of_sound (step.ready.sound.functions id c'.func step.ready.here.function)
      · rw [open_.2, ← block, open'.2]
      · -- a load is from the slot of a visible variable
        intro k result ty slot load new
        obtain ⟨name, binding, found, same⟩ := step.reads c.block k _ load new
        exact safe.visible name binding slot found same open_
    · intro name binding slot found same
      rw [step.scopes] at found
      exact live slot (safe.visible name binding slot found same)
  · exact step.toStmtStep.safe_of_closed ready safe open_

/-! ## Statements without branches -/

theorem Evaluates.carries {action : Lower Unit} (evaluates : Evaluates action) : Carries action := by
  intro s s' id c c' known ready safe run there
  obtain ⟨c₁, step⟩ := (evaluates s id c ready).ok run
  obtain rfl := step.ready.here.unique there
  exact step.safe ready safe

theorem skip_carries : Carries (pure ()) :=
  Evaluates.carries fun _ _ c ready => Yields.pure ⟨c, .refl ready⟩

theorem Safe.alloca (safe : s.Safe c known) (inside : c.block < c.func.blocks.size) (ty : Ty)
    (name : String) : (s.put id (c.alloca ty name)).Safe (c.alloca ty name) known ∧
      c.Flows known (c.alloca ty name) known := by
  -- a new slot changes no code, so nothing is known that was not
  have code : ∀ b, (c.alloca ty name).func.code b = c.func.code b := Func.code_insertSlot rfl
  have live : ∀ slot, c.Live known slot → (c.alloca ty name).Live known slot := by
    intro slot live open_
    have before : c.IsOpen :=
      ⟨by simpa [Cursor.alloca] using open_.1, by simpa [Cursor.alloca] using open_.2⟩
    rw [code]
    exact live before
  refine ⟨⟨?_, ?_⟩, fun _ _ => rfl, live⟩
  · apply safe.inits.of_same (Nat.zero_lt_of_lt inside) (Cursor.extends_alloca inside ty name).size code
    · simp [Cursor.alloca]
    · exact fun _ _ => rfl
  · exact fun name binding slot found same => live slot (safe.visible name binding slot found same)

theorem declare_safe (ready : s.Ready id c) (safe : s.Safe c known) {var : Token} {value : Value}
    (usable : s.CanUse c value) (run : declare var value s = .ok () s') (there : s'.emitter.At id c') :
    ∃ known', s'.Safe c' known' ∧ c.Flows known c' known' := by
  have step₁ := StmtStep.alloca ready usable.ty_ne_void var.text
  obtain ⟨s₂, c₂, pushed, _, step₂, rfl⟩ := declare_eq_ok ready usable run
  obtain rfl := step₂.ready.here.unique there
  obtain ⟨safe₁, flows₁⟩ := Safe.alloca safe ready.here.inside value.ty var.text
  obtain ⟨known', safe₂, flows₂⟩ := step₂.safe step₁.ready safe₁
  refine ⟨known', ⟨safe₂.inits, ?_⟩, flows₁.trans flows₂ (step₁.func ready).size⟩
  intro name binding slot found same
  have found' : (s.scopes.define var.text (.result c.func.locals.size .ptr) value.ty).lookup name =
    some binding := found
  rw [Scopes.lookup_define] at found'
  split at found'
  · -- the new variable has just been stored to
    cases found'
    cases same
    refine fun _ => .inr ⟨value, ?_⟩
    rw [pushed, Cursor.code_push step₁.ready.here.inside rfl, if_pos rfl]
    exact List.mem_append_right _ (List.mem_singleton.mpr rfl)
  · have scopes : s₂.scopes = s.scopes := step₂.scopes
    exact safe₂.visible name binding slot (scopes ▸ found') same

theorem declare_carries (var : Token) (initial : Option Expr) :
    Carries (stmt (.declare var initial)) := by
  intro s s' id c c' known ready safe run there
  cases initial with
  | none =>
    rw [stmt] at run
    exact declare_safe ready safe (.constInt rfl) run there
  | some e =>
    rw [stmt] at run
    obtain ⟨v, s₁, run₁, run₂⟩ := bind_eq_ok run
    obtain ⟨c₁, step₁, usable, _⟩ := (expr_lowersTo e s id c ready).ok run₁
    obtain ⟨known₁, safe₁, flows₁⟩ := step₁.safe ready safe
    obtain ⟨known₂, safe₂, flows₂⟩ := declare_safe step₁.ready safe₁ usable run₂ there
    exact ⟨known₂, safe₂, flows₁.trans flows₂ (step₁.func ready).size⟩

theorem ret_safe (ready : s.Ready id c) (safe : s.Safe c known) (value : Option Value)
    (fits : (Terminator.ret value).Sound s.emitter.module c.func (c.func.code c.opened.block)) :
    ∃ known', (s.put id (c.terminate (.ret value))).Safe (c.terminate (.ret value)) known' ∧
      c.Flows known (c.terminate (.ret value)) known' := by
  by_cases open_ : c.IsOpen
  -- behind a return control does not come
  · have live : ∀ slot, (c.terminate (.ret value)).Live known slot := by
      intro slot open'
      have none := open'.2
      rw [Cursor.terminator?_terminate open_.1, if_pos rfl] at none
      cases none
    refine ⟨known, ⟨?_, fun _ _ slot _ _ => live slot⟩, fun _ _ => rfl, fun slot _ => live slot⟩
    exact Cursor.initialises_terminate safe.inits open_ fun _ edge => (nomatch edge)
  · exact (StmtStep.terminate ready (.ret value) fits).safe_of_closed ready safe open_

theorem ret_carries (keyword : Token) (value : Option Expr) : Carries (stmt (.ret keyword value)) := by
  intro s s' id c c' known ready safe run there
  cases value with
  | none =>
    rw [stmt] at run
    have step := StmtStep.terminate ready (.ret none) trivial
    obtain rfl := terminate_eq_ok ready run
    obtain rfl := step.ready.here.unique there
    exact ret_safe ready safe none trivial
  | some e =>
    rw [stmt] at run
    obtain ⟨v, s₁, run₁, run₂⟩ := bind_eq_ok run
    obtain ⟨c₁, step₁, usable, _⟩ := (expr_lowersTo e s id c ready).ok run₁
    have step₂ := StmtStep.terminate step₁.ready (.ret (some v)) usable
    obtain rfl := terminate_eq_ok step₁.ready run₂
    obtain rfl := step₂.ready.here.unique there
    obtain ⟨known₁, safe₁, flows₁⟩ := step₁.safe ready safe
    obtain ⟨known₂, safe₂, flows₂⟩ := ret_safe step₁.ready safe₁ (some v) usable
    exact ⟨known₂, safe₂, flows₁.trans flows₂ (step₁.func ready).size⟩

/-! ## Compound statements -/

theorem seq_carries {first second : Lower Unit} (lowers : Lowers bad first)
    (carries : Carries first) (carries' : Carries second) : Carries (do first; second) := by
  intro s s' id c c' known ready safe run there
  obtain ⟨_, s₁, run₁, run₂⟩ := bind_eq_ok run
  obtain ⟨c₁, step₁⟩ := (lowers s id c ready).ok run₁
  obtain ⟨known₁, safe₁, flows₁⟩ := carries ready safe run₁ step₁.ready.here
  obtain ⟨known₂, safe₂, flows₂⟩ := carries' step₁.ready safe₁ run₂ there
  exact ⟨known₂, safe₂, flows₁.trans flows₂ (step₁.func ready).size⟩

theorem withBlockScope_carries {body : Lower Unit} (lowers : Lowers bad body)
    (carries : Carries body) : Carries (withBlockScope body) := by
  intro s s' id c c' known ready safe run there
  have inner := Ready.pushBlock ready
  obtain ⟨after, run', rfl⟩ := withBlockScope_eq_ok run
  obtain ⟨c₁, step⟩ := (lowers _ id c inner).ok run'
  have safe₀ : LowerState.Safe { s with scopes := s.scopes.push .block } c known :=
    ⟨safe.inits, fun name binding slot found => safe.visible name binding slot (by simpa using found)⟩
  obtain ⟨known₁, safe₁, flows⟩ := carries inner safe₀ run' there
  refine ⟨known₁, ⟨safe₁.inits, ?_⟩, flows⟩
  -- what is visible behind the block was visible before it
  intro name binding slot found same
  have before : s.scopes.lookup name = some binding := Scopes.pop_of_outer step.outer ▸ found
  exact flows.live slot (safe.visible name binding slot before same)

/-- Where the current block has ended, nothing is to be shown. -/
theorem carries_of_open {action : Lower Unit} (lowers : Lowers bad action)
    (carries : ∀ ⦃s s' id c c' known⦄, s.Ready id c → s.Safe c known → action s = .ok () s' →
      s'.emitter.At id c' → c.IsOpen → ∃ known', s'.Safe c' known' ∧ c.Flows known c' known') :
    Carries action := by
  intro s s' id c c' known ready safe run there
  by_cases open_ : c.IsOpen
  · exact carries ready safe run there open_
  · obtain ⟨c₁, step⟩ := (lowers s id c ready).ok run
    obtain rfl := step.ready.here.unique there
    exact step.safe_of_closed ready safe open_

/-- Where `here` is known at the start of the current block, it is live. -/
theorem live_of_known {here : Nat → Prop} (knows : known c.block = here) {slot : Nat}
    (holds : here slot) : c.Live known slot := by
  intro _
  rw [knows]
  exact .inl holds

theorem Safe.of_known {here : Nat → Prop} (inits : c.func.Initialises known)
    (knows : known c.block = here) (visible : s.Visible here) : s.Safe c known :=
  ⟨inits, fun name binding slot found same =>
    live_of_known knows (visible name binding slot found same)⟩

theorem live_addBlocks (open_ : c.IsOpen) (first second third : String) {slot : Nat}
    (live : c.Live known slot) : (c.addBlocks first second third).Live
      (extendKnown known c.func.blocks.size (c.Live known)) slot := by
  intro _
  rw [Cursor.block_addBlocks, extendKnown_old _ open_.1, Cursor.code_addBlocks]
  exact live open_

/-- A branch from a block where `here` is known, at the end of which a jump leads to another block
    where it is known. -/
theorem Contained.branch {action : Lower Unit} (contained : Contained action)
    {here : Nat → Prop} (ready : s.Ready id c) (inits : c.func.Initialises known)
    (knows : known c.block = here) (visible : s.Visible here) (run : action s = .ok () s')
    (step : StmtStep bad id s c s' c') {target : Nat} (bound : target < c.func.blocks.size)
    (knowsTarget : known target = here) (next : Nat) :
    ∃ known', (c'.jump target next).func.Initialises known' ∧
      (∀ b, b < c.func.blocks.size → known' b = known b) ∧ s'.Visible here := by
  obtain ⟨known', safe, flows⟩ :=
    contained.carries ready (Safe.of_known inits knows visible) run step.ready.here
  have inside := step.ready.here.inside
  refine ⟨known', ?_, flows.same, ?_⟩
  · apply Cursor.initialises_jump safe.inits inside next
      (Nat.lt_of_lt_of_le bound (step.func ready).size)
    intro slot holds
    rw [flows.same target bound, knowsTarget] at holds
    exact flows.live slot (live_of_known knows holds)
  · rw [LowerState.Visible, contained.declares.scopes_of_ok run]
    exact visible

theorem ifElse_carries (test : Expr) {yes no : Lower Unit} (lowersYes : Lowers bad yes)
    (lowersNo : Lowers bad' no) (containedYes : Contained yes) (containedNo : Contained no) :
    Carries (ifElse (condition test) yes no) := by
  apply carries_of_open (ifElse_lowers (condition_lowersTo test) lowersYes lowersNo)
  intro s s' id c c' known ready safe run there open_
  obtain ⟨v, s₁, c₁, s₂, c₂, s₃, c₃, rfl, parts⟩ :=
    branchRun_of_ifElse (condition_lowersTo test) lowersYes lowersNo ready run
  obtain rfl := parts.joined.ready.here.unique there
  obtain ⟨known₁, safe₁, flows₁⟩ := parts.tested.safe ready safe
  have inside := parts.tested.ready.here.inside
  have open₁ := (parts.tested.stays open_).2
  have size₁ := (parts.tested.func ready).size
  have sizeThen := size_atThen inside v
  have sizeElse := ((parts.first.func parts.opened.ready).trans
    (parts.between.func parts.first.ready)).size
  -- what is live behind the condition is known in all three blocks
  have knows : ∀ b, c₁.func.blocks.size ≤ b →
      extendKnown known₁ c₁.func.blocks.size (c₁.Live known₁) b = c₁.Live known₁ :=
    fun b new => extendKnown_new _ new
  have added := Cursor.isOpen_addBlocks c₁ "then" "else" "ifcont" open₁
  have initsThen : (atThen c₁ v).func.Initialises
      (extendKnown known₁ c₁.func.blocks.size (c₁.Live known₁)) := by
    apply Cursor.initialises_fork (Cursor.initialises_addBlocks safe₁.inits inside _ _ _) added
    · simp
    · simp
    · intro slot holds
      rw [knows _ (Nat.le_refl _)] at holds
      exact live_addBlocks open₁ _ _ _ holds
    · intro slot holds
      rw [knows _ (Nat.le_succ _)] at holds
      exact live_addBlocks open₁ _ _ _ holds
  obtain ⟨known₂, initsElse, same₂, visible₂⟩ := containedYes.branch parts.opened.ready initsThen
    (knows _ (Nat.le_refl _)) safe₁.visible parts.yes parts.first (by omega)
    (knows _ (Nat.le_add_right _ 2)) (c₁.func.blocks.size + 1)
  have knows₂ : ∀ b, c₁.func.blocks.size ≤ b → b < c₁.func.blocks.size + 3 →
      known₂ b = c₁.Live known₁ :=
    fun b new bound => (same₂ b (by omega)).trans (knows b new)
  obtain ⟨known₃, initsJoin, same₃, visible₃⟩ := containedNo.branch parts.between.ready initsElse
    (knows₂ (c₁.func.blocks.size + 1) (by omega) (by omega)) visible₂ parts.no parts.second (by omega)
    (knows₂ _ (Nat.le_add_right _ 2) (by omega)) (c₁.func.blocks.size + 2)
  have knows₃ : known₃ (c₁.func.blocks.size + 2) = c₁.Live known₁ :=
    (same₃ _ (by omega)).trans (knows₂ _ (Nat.le_add_right _ 2) (by omega))
  refine ⟨known₃, Safe.of_known initsJoin knows₃ visible₃, fun b old => ?_, fun slot live => ?_⟩
  · rw [same₃ b (by omega), same₂ b (by omega), extendKnown_old _ (by omega), flows₁.same b old]
  · exact live_of_known knows₃ (flows₁.live slot live)

theorem whileLoop_carries (test : Expr) {body : Lower Unit} (lowers : Lowers bad body)
    (contained : Contained body) : Carries (whileLoop (condition test) body) := by
  apply carries_of_open (whileLoop_lowers (condition_lowersTo test) lowers)
  intro s s' id c c' known ready safe run there open_
  obtain ⟨v, s₁, c₁, s₂, c₂, rfl, parts⟩ :=
    loopRun_of_whileLoop (condition_lowersTo test) lowers ready run
  obtain rfl := parts.closed.ready.here.unique there
  have inside := ready.here.inside
  have sizeTest := size_atCondition inside
  have size₁ := (parts.tested.func parts.opened.ready).size
  have sizeBody := (parts.forked.func parts.tested.ready).size
  -- what is live before the loop is known in all three blocks
  have knows : ∀ b, c.func.blocks.size ≤ b →
      extendKnown known c.func.blocks.size (c.Live known) b = c.Live known :=
    fun b new => extendKnown_new _ new
  have initsTest : (atCondition c).func.Initialises
      (extendKnown known c.func.blocks.size (c.Live known)) := by
    apply Cursor.initialises_jump (Cursor.initialises_addBlocks safe.inits inside _ _ _)
      (Cursor.inside_addBlocks inside _ _ _)
    · simp
    · intro slot holds
      rw [knows _ (Nat.le_refl _)] at holds
      exact live_addBlocks open_ _ _ _ holds
  have safeTest : LowerState.Safe (s.put id (atCondition c)) (atCondition c)
      (extendKnown known c.func.blocks.size (c.Live known)) :=
    Safe.of_known initsTest (knows _ (Nat.le_refl _)) safe.visible
  obtain ⟨known₁, safe₁, flows₁⟩ := parts.tested.safe parts.opened.ready safeTest
  have knows₁ : ∀ b, c.func.blocks.size ≤ b → b < c.func.blocks.size + 3 →
      known₁ b = c.Live known :=
    fun b new bound => (flows₁.same b (by omega)).trans (knows b new)
  have live₁ : ∀ slot, c.Live known slot → c₁.Live known₁ slot := fun slot live =>
    flows₁.live slot (live_of_known (knows _ (Nat.le_refl _)) live)
  have initsBody : (atBody c c₁ v).func.Initialises known₁ := by
    have fresh := fresh_atCondition inside (Nat.le_refl _) (Nat.lt_add_right 2 (Nat.lt_succ_self _))
    have open₁ := (parts.tested.stays ⟨fresh.bound, fresh.open_⟩).2
    apply Cursor.initialises_fork safe₁.inits open₁ v _ (by omega) (by omega)
    · intro slot holds
      rw [knows₁ _ (Nat.le_succ _) (by omega)] at holds
      exact live₁ slot holds
    · intro slot holds
      rw [knows₁ _ (Nat.le_add_right _ 2) (by omega)] at holds
      exact live₁ slot holds
  have visible₁ : s₁.Visible (c.Live known) := by
    rw [LowerState.Visible, parts.tested.scopes]
    exact safe.visible
  obtain ⟨known₂, initsAfter, same₂, visible₂⟩ := contained.branch parts.forked.ready initsBody
    (knows₁ (c.func.blocks.size + 1) (by omega) (by omega)) visible₁ parts.body parts.round (by omega)
    (knows₁ _ (Nat.le_refl _) (by omega)) (c.func.blocks.size + 2)
  have knows₂ : known₂ (c.func.blocks.size + 2) = c.Live known :=
    (same₂ _ (by omega)).trans (knows₁ _ (Nat.le_add_right _ 2) (by omega))
  refine ⟨known₂, Safe.of_known initsAfter knows₂ visible₂, fun b old => ?_, fun slot live => ?_⟩
  · rw [same₂ b (by omega), flows₁.same b (by omega), extendKnown_old _ old]
  · exact live_of_known knows₂ live

theorem roundOf_carries {body : Stmt} (step : Option Expr) (carries : Carries (stmt body)) :
    Carries (roundOf body step) := by
  cases step with
  | none => exact carries
  | some step =>
    have steps := effect_evaluates step
    exact withBlockScope_carries (seq_lowers (stmt_lowers body) steps.lowers)
      (seq_carries (stmt_lowers body) carries steps.carries)

theorem behindInitial_carries {initial : Option Stmt} {loop : Lower Unit} (lowers : Lowers bad loop)
    (starts : Carries (optional initial)) (carries : Carries loop) :
    Carries (behindInitial initial loop) := by
  cases initial with
  | none => exact carries
  | some initial =>
    have first := optional_lowers (some initial)
    exact withBlockScope_carries (seq_lowers first lowers) (seq_carries first starts carries)

/-! ## Functions -/

/-- A definition writes to another function. -/
theorem function_carries (name : Token) (params : List Token) {body : Lower Unit}
    (lowers : Lowers bad body) : Carries (function name params body) := by
  intro s s' id c c' known ready safe run there
  obtain ⟨step, scopes⟩ := (function_yields name params lowers ready).ok run
  obtain rfl := step.ready.here.unique there
  have visible : s'.Visible (c'.Live known) := by
    rw [LowerState.Visible, scopes]
    exact safe.visible
  exact ⟨known, ⟨safe.inits, visible⟩, fun _ _ => rfl, fun _ live => live⟩

theorem storeParams_safe (index : Nat) (params : List Token) (ready : s.Ready id c)
    (numbers : NumbersFrom index params c.func) (safe : s.Safe c known)
    (run : storeParams index params s = .ok () s') (there : s'.emitter.At id c') :
    ∃ known', s'.Safe c' known' := by
  induction params generalizing index s c known with
  | nil =>
    cases run
    obtain rfl := ready.here.unique there
    exact ⟨known, safe⟩
  | cons param params ih =>
    obtain ⟨s₁, c₁, usable, run₁, step₁, rest, run₂⟩ := storeParams_cons_eq_ok ready numbers run
    obtain ⟨known₁, safe₁, _⟩ := declare_safe ready safe usable run₁ step₁.ready.here
    exact ih (index + 1) step₁.ready rest safe₁ run₂

/-! ## Statements -/

/-- A statement that is no declaration, and has none as a branch or the body of a loop, declares nothing. -/
theorem openNames_eq_nil (st : Stmt) (braced : st.braced = true) (plain : st.isDeclaration = false) :
    st.openNames = [] := by
  fun_induction Stmt.openNames st with
  | case1 => cases plain
  | case2 test yes ih =>
    simp only [Stmt.braced, Bool.and_eq_true, Bool.not_eq_true'] at braced
    exact ih braced.1.2 braced.1.1
  | case3 test yes no ihYes ihNo =>
    simp only [Stmt.braced, Stmt.branchBraced, Bool.and_eq_true, Bool.not_eq_true'] at braced
    rw [ihYes braced.1.2 braced.1.1, ihNo braced.2.2 braced.2.1, List.append_nil]
  | case4 test body ih =>
    simp only [Stmt.braced, Bool.and_eq_true, Bool.not_eq_true'] at braced
    exact ih braced.2 braced.1
  | case5 test body ih =>
    simp only [Stmt.braced, Bool.and_eq_true, Bool.not_eq_true'] at braced
    exact ih braced.2 braced.1
  | _ => rfl

theorem Contained.of_braced {st : Stmt} (carries : Carries (stmt st)) (braced : st.braced = true)
    (plain : st.isDeclaration = false) : Contained (stmt st) :=
  ⟨carries, stmt_declares (openNames_eq_nil st braced plain ▸ List.forall_mem_nil _)⟩

theorem Contained.round {body : Stmt} (step : Option Expr) (carries : Carries (stmt body))
    (braced : body.braced = true) (plain : body.isDeclaration = false) : Contained (roundOf body step) := by
  have built : Built Change.none [] (fun _ => False) _ _ _ :=
    roundOf_built (fun _ permitted => stmt_built body (fun _ _ => trivial) permitted) step
      (fun _ _ => trivial) fun _ => openNames_eq_nil body braced plain ▸ List.forall_mem_nil _
  exact ⟨roundOf_carries step carries, built.declares⟩

mutual

theorem stmt_carries : ∀ st : Stmt, st.braced = true → Carries (stmt st)
  | .expression e, _ => by
    rw [stmt]
    exact (effect_evaluates e).carries
  | .print e, _ => (print_evaluates e).carries
  | .declare var initial, _ => declare_carries var initial
  | .block body, braced => by
    rw [stmt]
    exact withBlockScope_carries (stmts_lowers body) (stmts_carries body braced)
  | .ifElse test yes no, braced => by
    simp only [Stmt.braced, Bool.and_eq_true, Bool.not_eq_true'] at braced
    rw [stmt]
    exact ifElse_carries test (stmt_lowers yes) (optional_lowers no)
      (.of_braced (stmt_carries yes braced.1.2) braced.1.2 braced.1.1) (branch_contained no braced.2)
  | .whileLoop test body, braced => by
    simp only [Stmt.braced, Bool.and_eq_true, Bool.not_eq_true'] at braced
    rw [stmt]
    exact whileLoop_carries test (stmt_lowers body)
      (.of_braced (stmt_carries body braced.2) braced.2 braced.1)
  | .forLoop none test step body, braced => by
    simp only [Stmt.braced, Bool.and_eq_true, Bool.not_eq_true'] at braced
    rw [stmt_forLoop]
    exact whileLoop_carries _ (roundOf_lowers step (stmt_lowers body))
      (.round step (stmt_carries body braced.2) braced.2 braced.1)
  | .forLoop (some initial) test step body, braced => by
    simp only [Stmt.braced, Bool.and_eq_true, Bool.not_eq_true'] at braced
    have starts : Carries (optional (some initial)) := by
      rw [optional]
      exact stmt_carries initial braced.1.1
    have lowers := roundOf_lowers step (stmt_lowers body)
    rw [stmt_forLoop]
    exact behindInitial_carries (whileLoop_lowers (condition_lowersTo _) lowers) starts
      (whileLoop_carries _ lowers (.round step (stmt_carries body braced.2) braced.2 braced.1.2))
  | .function name params body, _ => by
    rw [stmt]
    exact function_carries name params (stmts_lowers body)
  | .ret keyword value, _ => ret_carries keyword value
  | .brk _, _ => by
    rw [stmt]
    exact skip_carries

theorem stmts_carries : ∀ ss : List Stmt, Stmt.listBraced ss = true → Carries (stmts ss)
  | [], _ => by
    rw [stmts]
    exact skip_carries
  | st :: ss, braced => by
    simp only [Stmt.listBraced, Bool.and_eq_true] at braced
    rw [stmts]
    exact seq_carries (stmt_lowers st) (stmt_carries st braced.1) (stmts_carries ss braced.2)

theorem branch_contained : ∀ st : Option Stmt, Stmt.branchBraced st = true → Contained (optional st)
  | none, _ => by
    rw [optional]
    exact ⟨skip_carries, .pure ()⟩
  | some st, braced => by
    simp only [Stmt.branchBraced, Bool.and_eq_true, Bool.not_eq_true'] at braced
    rw [optional]
    exact .of_braced (stmt_carries st braced.2) braced.2 braced.1

end

/-- At the start of a function nothing has been stored. -/
theorem initialises_entry (d : Definition) : d.entry.func.Initialises fun _ _ => False where
  entry _ holds := holds
  targets b t target ends _ := by
    simp only [Definition.entry, Func.terminator?_addBlock] at ends
    simp [declared, Func.terminator?, Func.declare] at ends
  edges b t target slot _ _ holds := holds.elim
  loads b k result ty slot load := by
    simp only [Definition.entry, Func.code_addBlock] at load
    simp [declared, Func.code, Func.declare] at load

theorem WrittenFor.storesFirst {d : Definition} {k : Nat} {f : Func} {m : Module}
    (written : WrittenFor d k f m) (braced : Stmt.listBraced d.body = true) : f.StoresFirst := by
  obtain ⟨s₀, s₁, c₁, s₂, c₂, entered, empty, parts, rfl, _⟩ := written.run
  have safe₀ : s₀.Safe d.entry fun _ _ => False := by
    refine ⟨initialises_entry d, fun name binding slot found => ?_⟩
    rw [empty] at found
    cases found
  -- the parameters are stored, then the body is written, and a return ends it
  obtain ⟨known₁, safe₁⟩ := storeParams_safe 0 d.params entered
    (numbersFrom_declared d.name d.params) safe₀ parts.params parts.stored.ready.here
  obtain ⟨known₂, safe₂, _⟩ := stmts_carries d.body braced parts.stored.ready safe₁ parts.body
    parts.written.ready.here
  have inits : (atEnd c₂).func.Initialises known₂ := by
    apply Cursor.initialises_close safe₂.inits parts.written.ready.here.inside
    exact fun _ edge => (nomatch edge)
  exact inits.storesFirst (parts.ended.ready.sound.functions k _ parts.ended.ready.here.function)

end Lower

theorem compile_eq_ok {moduleName source : String} {compilation : Compilation}
    (compiled : compile moduleName source = .ok compilation) :
    parseTokens (tokenize source) = .ok compilation.statements ∧
      lowerProgram moduleName compilation.statements = .ok compilation.module := by
  simp only [compile] at compiled
  split at compiled
  · cases compiled
  · rename_i statements parsed
    split at compiled
    · cases compiled
    · rename_i module accepted
      cases compiled
      exact ⟨parsed, accepted⟩

/-- In every function of a compiled program, a slot is stored to on each way from the start to a load
    of it. -/
theorem compile_storesFirst {moduleName source : String} {compilation : Compilation}
    (compiled : compile moduleName source = .ok compilation) :
    ∀ f ∈ compilation.module.functions, f.StoresFirst := by
  intro f member
  obtain ⟨parsed, accepted⟩ := compile_eq_ok compiled
  obtain ⟨k, found⟩ := Array.getElem?_of_mem member
  cases (covers_of_lowerProgram accepted).only k f (Nat.zero_le k) found with
  -- a declaration has no blocks
  | inl empty =>
    intro _ b _ _ inside
    have bound := (Array.getElem?_eq_some_iff.mp inside).1
    omega
  | inr exists_ =>
    obtain ⟨d, defined, written⟩ := exists_
    exact written.storesFirst (listBraced_programFunctions (parseTokens_braced parsed) d defined)

/-- A variable that is declared in the body of a loop: its slot is made in the first block, and it is
    read in the body only. -/
theorem compile_storesFirst_loop :
    let source := "var x = 1; while (x < 3) \x7b var y = x; x = x + y; \x7d return x;"
    ∃ compilation f, compile "m" source = .ok compilation ∧ f ∈ compilation.module.functions ∧
      .alloca 4 .i32 ∈ f.slots 0 ∧ .load 6 .i32 (.result 4 .ptr) ∈ f.code 2 ∧ f.StoresFirst := by
  intro source
  have checked : (compile "m" source).toOption.any (fun compilation =>
      compilation.module.functions[0]?.any fun f =>
        decide (.alloca 4 .i32 ∈ f.slots 0 ∧ .load 6 .i32 (.result 4 .ptr) ∈ f.code 2)) = true := by
    decide +kernel
  obtain ⟨compilation, compiled, first⟩ := (Option.any_eq_true _ _).mp checked
  obtain ⟨f, found, holds⟩ := (Option.any_eq_true _ _).mp first
  have run := eq_ok_of_toOption compiled
  have member := Array.mem_of_getElem? found
  obtain ⟨slot, load⟩ := of_decide_eq_true holds
  exact ⟨compilation, f, run, member, slot, load, compile_storesFirst run f member⟩

end ImpCompiler
