import ImpCompiler.Proofs.Semantics.Expressions

/-! # Statements keep their meaning

The blocks for a statement do what the statement does: control comes to the end of them exactly
if the statement completes, the function returns from within them exactly if the statement
does, and otherwise both go on for ever or are stuck.

Behind a statement that has returned, lowering goes on in a block of its own that no branch leads
to.  Of such a block nothing is shown but the order of the slots that its declarations make, which
those of the rest of the function depend on. -/

namespace ImpCompiler

open Ssa

variable {R A : Type}

namespace Behaviour

theorem skip_andThen (b : Behaviour R A) : skip.andThen b = b := by
  funext σ o
  simp [andThen, skip]

theorem andThen_skip (b : Behaviour R A) : b.andThen skip = b := by
  funext σ o
  cases o with
  | normal σ' => simp [andThen, skip]
  | returned t v => simp [andThen, skip, and_assoc]

end Behaviour

namespace Lower

variable {act : Activation R A} {F : Func} {bad bad' : Prop}
variable {id : Nat} {s s' : LowerState} {c c' : Cursor} {frame : Frame R A} {σ : State R A}

/-- The action writes code that does what `exec` says; `layout` tells which variables are visible
    behind it. -/
def Translates (act : Activation R A) (F : Func) (layout : Layout → Layout)
    (exec : Layout → Behaviour R A) (action : Lower Unit) : Prop :=
  ∀ ⦃s s' id c c' L⦄, s.Ready id c → L.Fits s.scopes c.func → action s = .ok () s' →
    s'.emitter.At id c' → (layout L).Fits s'.scopes c'.func ∧
      (s'.Precedes c' act F → c.IsOpen → ∀ ⦃frame σ⦄, frame.Shows F σ →
        act.Realises F c c' frame (exec L σ))

/-! ## Statements without branches -/

/-- An action that only computes something is a statement that completes if there is a value. -/
theorem translates_of_computes {α : Type} {action : Lower Unit}
    {meaning : Layout → State R A → Option (α × State R A)}
    (evaluates : Evaluates action)
    (computes : ∀ L, Computes act F L action (meaning L) fun _ _ _ => True) :
    Translates act F (fun L => L)
      (fun L σ o => ∃ x σ', meaning L σ = some (x, σ') ∧ o = .normal σ') action := by
  intro s s' id c c' L ready fits run there
  obtain ⟨c₁, step⟩ := (evaluates s id c ready).ok run
  obtain rfl := step.ready.here.unique there
  refine ⟨fits.step step, fun before open_ frame σ shows => ?_⟩
  exact (computes L ready fits run there before open_ shows).realises (step.stays open_).2

section expressions

variable (can : act.CanRun F)

include can

theorem condition_computes (L : Layout) (e : Expr) :
    Computes act F L (condition e) (e.holds act.interpretation L)
      fun v b frame => act.read frame v = some (.ofBool b) := by
  intro s s' id c c' v frame σ ready fits run there before open_ shows
  obtain ⟨w, s₁, run₁, run₂⟩ := bind_eq_ok run
  obtain ⟨c₁, step₁, usable, _⟩ := (expr_lowersTo e s id c ready).ok run₁
  obtain ⟨c₂, step₂, _⟩ := (test_gives step₁.ready usable e.position).ok run₂
  obtain rfl := step₂.ready.here.unique there
  apply (expr_computes can L e ready fits run₁ step₁.ready.here
    (before.earlier step₁.ready step₂.toGrows) open_ shows).bind (step₁.func ready).size_locals
  intro x σ₁ frame₁ shows₁ holds
  exact test_simulates can step₁.ready (step₁.stays open_).2 shows₁ there before run₂ holds

theorem effect_translates (e : Expr) :
    Translates act F (fun L => L) (fun L => Behaviour.effect act.interpretation L e) (effect e) := by
  have discard : ∀ e L, Computes act F L (do let _ ← expr e) (e.eval act.interpretation L)
      fun _ _ _ => True := by
    intro e L s s' id c c' _ frame σ ready fits run there before open_ shows
    obtain ⟨v, s₁, run₁, done⟩ := bind_eq_ok run
    cases done
    exact (expr_computes can L e ready fits run₁ there before open_ shows).mono fun _ _ _ => trivial
  apply translates_of_computes (effect_evaluates e)
  cases e with
  | call callee arguments =>
    -- a call may have no value here
    intro L s s' id c c' _ frame σ ready fits run there before open_ shows
    obtain ⟨v?, s₁, run₁, done⟩ := bind_eq_ok run
    cases done
    have computes := call_computes can callee arguments (args_computes can L callee.text 0 arguments)
    exact (computes ready fits run₁ there before open_ shows).mono fun _ _ _ => trivial
  | _ => exact discard _

/-- A routine is called to print a value. -/
theorem printWith_simulates (ready : s.Ready id c) (open_ : c.IsOpen) (shows : frame.Shows F σ)
    (there : s'.emitter.At id c') (before : s'.Precedes c' act F) {routine : PrintRoutine}
    {argument : Value} {x : Val R A} {position : Position} (usable : s.CanUse c argument)
    (run : printWith routine argument position s = .ok () s') (holds : act.Holds argument x frame)
    (typed : x.ty = routine.param) :
    act.Simulates F c c' frame (σ.call act.interpretation ⟨routine.name, [x]⟩) fun _ _ => True := by
  obtain ⟨k, s₁, run₁, rest⟩ := bind_eq_ok run
  obtain ⟨v?, s₂, run₂, done⟩ := bind_eq_ok rest
  cases done
  obtain ⟨step₁, g, function, named, types⟩ := (printFunction_yields ready routine position).ok run₁
  have usables : ∀ v ∈ [argument], s₁.CanUse c v := by
    intro v member
    rw [List.mem_singleton.mp member]
    exact usable.step step₁ ready
  have types' : [argument].map Value.ty = g.paramTypes := by
    rw [types, List.map_singleton, ← holds.2, typed]
  obtain ⟨c₂, step₂, _⟩ := (emit_call_gives step₁.ready function usables types' "").ok run₂
  obtain rfl := step₂.ready.here.unique there
  have values : [argument].mapM (act.read frame) = some [x] := by simp [holds.1]
  rw [← named]
  exact (emit_call_simulates can step₁.ready (before.earlier step₁.ready step₂.toGrows) open_ shows
    there before function run₂ values).mono fun _ _ _ => trivial

theorem print_simulates (ready : s.Ready id c) (open_ : c.IsOpen) (shows : frame.Shows F σ)
    (there : s'.emitter.At id c') (before : s'.Precedes c' act F) {value : Value} {x : Val R A}
    {position : Position} (usable : s.CanUse c value) (run : print value position s = .ok () s')
    (holds : act.Holds value x frame) :
    act.Simulates F c c' frame (σ.call act.interpretation x.printing) fun _ _ => True := by
  have typed := holds.2
  rw [print] at run
  cases x with
  | address a =>
    rw [← typed] at run
    exact printWith_simulates can ready open_ shows there before usable run holds rfl
  | i32 n =>
    rw [← typed] at run
    exact printWith_simulates can ready open_ shows there before usable run holds rfl
  | real a =>
    rw [← typed] at run
    exact printWith_simulates can ready open_ shows there before usable run holds rfl
  | i1 b =>
    -- the value is widened first
    rw [← typed] at run
    obtain ⟨w, s₁, run₁, run₂⟩ := bind_eq_ok run
    have widens : Yields (emit (Emitter.zext value .i32 "widened")) s (Gives id s c .i32) :=
      yields_pushResult (.zext · value .i32) ready (fun _ => rfl)
        ⟨usable, by rw [← typed]; rfl, rfl⟩ trivial Ty.noConfusion "widened"
    obtain ⟨c₁, step₁, usable₁, typed₁⟩ := widens.ok run₁
    obtain ⟨c₂, step₂⟩ := (printWith_yields step₁.ready .integer usable₁ typed₁ position).ok run₂
    obtain rfl := step₂.ready.here.unique there
    have exec : ∀ k, act.exec frame (.zext k value .i32) =
        (some (.i32 (b.setWidth 32))).map fun y => frame.setLocal k (.value y) := by
      intro k
      rw [Activation.exec, holds.1]
      rfl
    have widened : act.Simulates F c c₁ frame (some (.i32 (b.setWidth 32), σ)) (act.Holds w) :=
      pushResult_simulates can ready open_ shows step₁.ready.here
        (before.earlier step₁.ready step₂.toGrows) (.zext · value .i32) run₁ (fun _ => rfl)
        (fun _ => rfl) exec (fun y same => by cases same; rfl)
    show act.Simulates F c c' frame (some (.i32 (b.setWidth 32), σ) >>= fun p =>
      p.2.call act.interpretation ⟨PrintRoutine.integer.name, [p.1]⟩) _
    apply widened.bind (step₁.func ready).size_locals
    intro x σ₁ frame₁ shows₁ holds₁
    exact printWith_simulates can step₁.ready (step₁.stays open_).2 shows₁ there before usable₁ run₂
      holds₁ (holds₁.2.trans typed₁)

theorem print_translates (e : Expr) :
    Translates act F (fun L => L) (fun L => (Stmt.print e).Exec act.interpretation L)
      (stmt (.print e)) := by
  have translates : Translates act F (fun L => L) (fun L σ o => ∃ r σ₂,
      ((e.eval act.interpretation L σ).bind fun p =>
        p.2.call act.interpretation p.1.printing) = some (r, σ₂) ∧ o = .normal σ₂)
      (stmt (.print e)) := by
    apply translates_of_computes (print_evaluates e)
    intro L s s' id c c' _ frame σ ready fits run there before open_ shows
    rw [stmt] at run
    obtain ⟨v, s₁, run₁, run₂⟩ := bind_eq_ok run
    obtain ⟨c₁, step₁, usable, _⟩ := (expr_lowersTo e s id c ready).ok run₁
    obtain ⟨c₂, step₂⟩ := (print_yields step₁.ready usable e.position).ok run₂
    obtain rfl := step₂.ready.here.unique there
    apply (expr_computes can L e ready fits run₁ step₁.ready.here
      (before.earlier step₁.ready step₂.toGrows) open_ shows).bind (step₁.func ready).size_locals
    intro x σ₁ frame₁ shows₁ holds
    exact print_simulates can step₁.ready (step₁.stays open_).2 shows₁ there before usable run₂ holds
  intro s s' id c c' L ready fits run there
  obtain ⟨fits', realises⟩ := translates ready fits run there
  refine ⟨fits', fun before open_ frame σ shows => (realises before open_ shows).congr fun o => ?_⟩
  simp only [Stmt.Exec, Option.bind_eq_some_iff, Prod.exists]
  constructor
  · rintro ⟨r, σ₂, ⟨x, σ₁, value, called⟩, done⟩
    exact ⟨x, σ₁, r, σ₂, value, called, done⟩
  · rintro ⟨x, σ₁, r, σ₂, value, called, done⟩
    exact ⟨r, σ₂, ⟨x, σ₁, value, called⟩, done⟩

omit can in
/-- A new slot is that of a new variable. -/
theorem fits_declare {L : Layout} {scopes : Scopes} {f f' : Func} (fits : L.Fits scopes f) {slot : Nat}
    {ty : Ty} (made : f'.slots 0 = f.slots 0 ++ [.alloca slot ty]) (name : String) :
    (L.declare name).Fits (scopes.define name (.result slot .ptr) ty) f' where
  next := by rw [made, List.length_append, ← fits.next]; rfl
  names other binding found := by
    rw [Scopes.lookup_define] at found
    rw [made]
    split at found
    · rename_i same
      cases found
      refine ⟨L.next, slot, by simp [Layout.lookup, Layout.declare, same], rfl, ?_⟩
      rw [fits.next, List.getElem?_concat_length]
    · rename_i different
      obtain ⟨k, id, visible, address, slot'⟩ := fits.names other binding found
      refine ⟨k, id, ?_, address, ?_⟩
      · simpa [Layout.lookup, Layout.declare, List.lookup_cons, beq_false_of_ne different] using visible
      · rw [List.getElem?_append_left (List.getElem?_eq_some_iff.mp slot').1, slot']

/-- A variable takes its first value. -/
theorem declare_simulates {L : Layout} (fits : L.Fits s.scopes c.func) (ready : s.Ready id c)
    (there : s'.emitter.At id c') {var : Token} {value : Value} (usable : s.CanUse c value)
    (run : declare var value s = .ok () s') :
    (L.declare var.text).Fits s'.scopes c'.func ∧
      (s'.Precedes c' act F → c.IsOpen → c'.IsOpen ∧ ∀ {frame σ x}, frame.Shows F σ →
        act.Holds value x frame →
        act.Simulates F c c' frame (some (x, σ.assign L.next x)) fun _ _ => True) := by
  have step₁ := StmtStep.alloca ready usable.ty_ne_void var.text
  have slots := Cursor.slots_alloca ready.here.inside value.ty var.text 0
  rw [if_pos rfl] at slots
  obtain ⟨s₂, c₂, _, store, step₂, rfl⟩ := declare_eq_ok ready usable run
  obtain rfl := step₂.ready.here.unique there
  constructor
  · rw [← step₂.slots] at slots
    exact fits_declare fits slots var.text
  · intro before open_
    have before₂ : s₂.Precedes c' act F := ⟨before.module, before.func⟩
    have open₁ := isOpen_alloca open_ value.ty var.text
    refine ⟨(step₂.stays open₁).2, fun {frame σ x} shows holds => ?_⟩
    have later := (before₂.earlier step₁.ready step₂.toGrows).func
    -- the slot that is made is the next one of the finished function too
    have slot : (F.slots 0)[L.next]? = some (.alloca c.func.locals.size value.ty) := by
      obtain ⟨more, all⟩ := later.slots 0
      rw [← all, slots, fits.next, List.append_assoc, List.getElem?_append_right (Nat.le_refl _),
        Nat.sub_self]
      rfl
    have place : act.place frame (.result c.func.locals.size .ptr) = some L.next := by
      simp only [Activation.place, Activation.word, shows.places _ _ _ slot]
    have number : x.ty = .i32 := holds.2.trans (can.numbers _ _ (List.mem_of_getElem? slot))
    have leads : act.Leads F 0 c frame (c.alloca value.ty var.text) frame :=
      Activation.leads_of_code rfl (Func.code_insertSlot rfl _) later
    apply Activation.Simulates.after leads (step₁.func ready).size_locals
    exact (store_simulates step₁.ready open₁ shows step₂.ready.here before₂ store holds place number).mono
      fun _ _ _ => trivial

theorem declare_translates (var : Token) (initial : Option Expr) :
    Translates act F (fun L => L.declare var.text)
      (fun L => (Stmt.declare var initial).Exec act.interpretation L)
      (stmt (.declare var initial)) := by
  intro s s' id c c' L ready fits run there
  cases initial with
  | none =>
    rw [stmt] at run
    obtain ⟨fits', simulates⟩ := declare_simulates can fits ready there (.constInt rfl) run
    refine ⟨fits', fun before open_ frame σ shows => ?_⟩
    obtain ⟨open', assigns⟩ := simulates before open_
    have zero : act.Holds (.i32 0) (.i32 0) frame := ⟨rfl, rfl⟩
    apply ((assigns shows zero).realises open').congr
    intro o
    constructor
    · intro done
      obtain ⟨x, σ', same, normal⟩ := done
      cases same
      exact normal
    · exact fun normal => ⟨_, _, rfl, normal⟩
  | some e =>
    rw [stmt] at run
    obtain ⟨v, s₁, run₁, run₂⟩ := bind_eq_ok run
    obtain ⟨c₁, step₁, usable, _⟩ := (expr_lowersTo e s id c ready).ok run₁
    obtain ⟨c₂, step₂⟩ := (declare_yields step₁.ready var usable).ok run₂
    obtain rfl := step₂.ready.here.unique there
    obtain ⟨fits', simulates⟩ := declare_simulates can (fits.step step₁) step₁.ready there usable run₂
    refine ⟨fits', fun before open_ frame σ shows => ?_⟩
    obtain ⟨open', assigns⟩ := simulates before (step₁.stays open_).2
    have sim : act.Simulates F c c' frame
        ((e.eval act.interpretation L σ).bind fun p => some (p.1, p.2.assign L.next p.1))
        fun _ _ => True := by
      apply (expr_computes can L e ready fits run₁ step₁.ready.here
        (before.earlier step₁.ready step₂.toGrows) open_ shows).bind (step₁.func ready).size_locals
      exact fun x σ₁ frame₁ shows₁ holds => assigns shows₁ holds
    apply (sim.realises open').congr
    intro o
    simp only [Stmt.Exec, Option.bind_eq_some_iff, Prod.exists, Option.some.injEq, Prod.mk.injEq]
    constructor
    · rintro ⟨x, _, ⟨_, σ', value, rfl, rfl⟩, done⟩
      exact ⟨_, σ', value, done⟩
    · rintro ⟨x, σ', value, done⟩
      exact ⟨x, _, ⟨x, σ', value, rfl, rfl⟩, done⟩

omit can in
/-- The function returns. -/
theorem realises_ret (open_ : c.IsOpen) {value : Option Value}
    (later : (c.terminate (.ret value)).func.Extends F) :
    act.Realises F c (c.terminate (.ret value)) frame fun o =>
      ∃ x, value.bind (act.read frame) = some x ∧ o = .returned frame.trace x where
  normal σ' done := by
    obtain ⟨_, _, same⟩ := done
    cases same
  returned t v done := by
    obtain ⟨x, read, same⟩ := done
    cases same
    refine ⟨1, ?_⟩
    rw [Activation.resume_ret open_ later, read]
    rfl
  complete fuel t v ends := by
    cases fuel with
    | zero => cases ends
    | succ fuel =>
      rw [Activation.resume_ret open_ later] at ends
      obtain ⟨x, read, same⟩ := Option.map_eq_some_iff.mp ends
      cases same
      exact .inl ⟨_, read, rfl⟩

theorem ret_translates (keyword : Token) (value : Option Expr) :
    Translates act F (fun L => L) (fun L => (Stmt.ret keyword value).Exec act.interpretation L)
      (stmt (.ret keyword value)) := by
  intro s s' id c c' L ready fits run there
  cases value with
  | none =>
    rw [stmt] at run
    have step := StmtStep.terminate ready (.ret none) trivial
    obtain rfl := terminate_eq_ok ready run
    obtain rfl := step.ready.here.unique there
    refine ⟨fits.of_slots (by simp [Cursor.terminate]), fun before open_ frame σ shows => ?_⟩
    apply (realises_ret open_ before.func).congr
    simp [Stmt.Exec]
  | some e =>
    rw [stmt] at run
    obtain ⟨v, s₁, run₁, run₂⟩ := bind_eq_ok run
    obtain ⟨c₁, step₁, usable, _⟩ := (expr_lowersTo e s id c ready).ok run₁
    have step₂ := StmtStep.terminate step₁.ready (.ret (some v)) usable
    obtain rfl := terminate_eq_ok step₁.ready run₂
    obtain rfl := step₂.ready.here.unique there
    have fits₁ : L.Fits s₁.scopes c₁.func := fits.step step₁
    refine ⟨fits₁.of_slots (by simp [Cursor.terminate]), fun before open_ frame σ shows => ?_⟩
    have sim := expr_computes can L e ready fits run₁ step₁.ready.here
      (before.earlier step₁.ready step₂.toGrows) open_ shows
    simp only [Stmt.Exec]
    cases evaluates : e.eval act.interpretation L σ with
    | none =>
      rw [evaluates] at sim
      exact .of_stuck sim (by simp)
    | some p =>
      obtain ⟨x, σ'⟩ := p
      rw [evaluates] at sim
      obtain ⟨frame', leads, shows', _, holds⟩ := sim
      have returns := (realises_ret (step₁.stays open_).2 before.func).after (Nat.zero_le 1) leads
      apply returns.congr
      intro o
      rw [Option.bind_some, holds.1, shows'.trace]
      constructor
      · intro done
        obtain ⟨_, value, result⟩ := done
        cases value
        exact ⟨x, σ', rfl, result⟩
      · intro done
        obtain ⟨_, _, value, result⟩ := done
        cases value
        exact ⟨x, rfl, result⟩

end expressions

/-! ## Compound statements -/

/-- Where nothing is written, nothing is done. -/
theorem realises_skip (open_ : c.IsOpen) (later : c.func.Extends F) (shows : frame.Shows F σ) :
    act.Realises F c c frame (Behaviour.skip σ) := by
  have nothing : act.Simulates F c c frame (some ((), σ)) fun _ _ => True :=
    Activation.simulates_pure rfl rfl later shows trivial
  apply (nothing.realises open_).congr
  simp [Behaviour.skip]

theorem skip_translates : Translates act F (fun L => L) (fun _ => Behaviour.skip) (pure ()) := by
  intro s s' id c c' L ready fits run there
  cases run
  obtain rfl := ready.here.unique there
  exact ⟨fits, fun before open_ frame σ shows => realises_skip open_ before.func shows⟩

theorem seq_translates {first second : Lower Unit} {layout layout' : Layout → Layout}
    {exec exec' : Layout → Behaviour R A} (lowers : Lowers bad first) (lowers' : Lowers bad' second)
    (translates : Translates act F layout exec first)
    (translates' : Translates act F layout' exec' second) :
    Translates act F (fun L => layout' (layout L)) (fun L => (exec L).andThen (exec' (layout L)))
      (do first; second) := by
  intro s s' id c c' L ready fits run there
  obtain ⟨_, s₁, run₁, run₂⟩ := bind_eq_ok run
  obtain ⟨c₁, step₁⟩ := (lowers s id c ready).ok run₁
  obtain ⟨c₂, step₂⟩ := (lowers' s₁ id c₁ step₁.ready).ok run₂
  obtain rfl := step₂.ready.here.unique there
  obtain ⟨fits₁, realises₁⟩ := translates ready fits run₁ step₁.ready.here
  obtain ⟨fits₂, realises₂⟩ := translates' step₁.ready fits₁ run₂ there
  refine ⟨fits₂, fun before open_ frame σ shows => ?_⟩
  apply (realises₁ (before.earlier step₁.ready step₂.toGrows) open_ shows).andThen
  exact fun σ₁ frame₁ open₁ shows₁ => realises₂ before open₁ shows₁

/-- Behind a block, what was visible before it is visible again. -/
theorem fits_close {L inner : Layout} {scopes scopes' : Scopes} {f f' : Func}
    (fits : L.Fits scopes f) (fits' : inner.Fits scopes' f') (later : f.Extends f') :
    (L.close inner).Fits scopes f' where
  next := fits'.next
  names name binding found := by
    obtain ⟨k, id, visible, address, slot⟩ := fits.names name binding found
    obtain ⟨more, all⟩ := later.slots 0
    refine ⟨k, id, visible, address, ?_⟩
    rw [← all, List.getElem?_append_left (List.getElem?_eq_some_iff.mp slot).1, slot]

theorem withBlockScope_translates {body : Lower Unit} {layout : Layout → Layout}
    {exec : Layout → Behaviour R A} (lowers : Lowers bad body)
    (translates : Translates act F layout exec body) :
    Translates act F (fun L => L.close (layout L)) exec (withBlockScope body) := by
  intro s s' id c c' L ready fits run there
  have inner := Ready.pushBlock ready
  obtain ⟨after, run', rfl⟩ := withBlockScope_eq_ok run
  obtain ⟨c₁, step⟩ := (lowers _ id c inner).ok run'
  obtain rfl := step.ready.here.unique there
  have fits₀ : L.Fits (s.scopes.push .block) c.func :=
    ⟨fits.next, fun name binding found => fits.names name binding (by simpa using found)⟩
  obtain ⟨fits₁, realises⟩ := translates inner fits₀ run' there
  refine ⟨?_, fun before open_ frame σ shows => realises ⟨before.module, before.func⟩ open_ shows⟩
  rw [Scopes.pop_of_outer step.outer]
  exact fits_close fits fits₁ (step.func inner)

section branches

variable (can : act.CanRun F)

include can

/-- The blocks of two branches are entered from behind the condition. -/
theorem leads_atThen {v : Value} (open_ : c.IsOpen) (later : (atThen c v).func.Extends F) {b : Bool}
    (read : act.read frame v = some (.ofBool b))
    (there : c'.block = if b then c.func.blocks.size else c.func.blocks.size + 1)
    (starts : c'.Starts F) : act.Leads F 1 c frame c' frame := by
  have added := Cursor.isOpen_addBlocks c "then" "else" "ifcont" open_
  rw [atThen] at later
  have later' := (Cursor.extends_fork added.1 v _ _ _).trans later
  have same : act.Leads F 0 c frame (c.addBlocks "then" "else" "ifcont") frame :=
    Activation.leads_of_code rfl (Cursor.code_addBlocks ..) later'
  exact same.trans (Activation.leads_fork can.sound added later read there starts)

theorem ifElse_translates (test : Expr) {yes no : Lower Unit} {layout layout' : Layout → Layout}
    {exec exec' : Layout → Behaviour R A} (lowersYes : Lowers bad yes) (lowersNo : Lowers bad' no)
    (translatesYes : Translates act F layout exec yes)
    (translatesNo : Translates act F layout' exec' no) :
    Translates act F (fun L => layout' (layout L))
      (fun L σ o => ∃ b σ', test.holds act.interpretation L σ = some (b, σ') ∧
        if b then exec L σ' o else exec' (layout L) σ' o)
      (ifElse (condition test) yes no) := by
  intro s s' id c c' L ready fits run there
  obtain ⟨v, s₁, c₁, s₂, c₂, s₃, c₃, rfl, parts⟩ :=
    branchRun_of_ifElse (condition_lowersTo test) lowersYes lowersNo ready run
  obtain rfl := parts.joined.ready.here.unique there
  have inside := parts.tested.ready.here.inside
  have fits₁ : L.Fits s₁.scopes c₁.func := fits.step parts.tested
  obtain ⟨fits₂, first⟩ := translatesYes parts.opened.ready (fits₁.of_slots (by simp [atThen]))
    parts.yes parts.first.ready.here
  obtain ⟨fits₃, second⟩ := translatesNo parts.between.ready (fits₂.of_slots (by simp [atElse]))
    parts.no parts.second.ready.here
  refine ⟨fits₃.of_slots (by simp [atJoin]), fun before open_ frame σ shows => ?_⟩
  -- what is written last is in the finished function, so all that came before is
  have before₃ := before.earlier parts.second.ready parts.joined
  have atNo := before₃.earlier parts.between.ready parts.second.toGrows
  have before₂ := atNo.earlier parts.first.ready parts.between
  have atYes := before₂.earlier parts.opened.ready parts.first.toGrows
  have before₁ := atYes.earlier parts.tested.ready parts.opened
  -- control enters each block at its start
  have freshYes := fresh_atThen inside v (Nat.le_refl _) (by omega)
  have freshNo := parts.fresh_atElse (Nat.lt_succ_self _) (by omega)
  have freshJoin := parts.fresh_atJoin
  have startsYes := freshYes.starts (Nat.ne_zero_of_lt inside) atYes.func
  have startsNo := freshNo.starts (Nat.succ_ne_zero _) atNo.func
  have startsJoin := freshJoin.starts (Nat.succ_ne_zero _) before.func
  have decides : act.Decides F c (atThen c₁ v) (atElse c₁ c₂) frame
      (test.holds act.interpretation L σ) := by
    apply (condition_computes can L test ready fits parts.test parts.tested.ready.here before₁ open_
      shows).decides
    intro b frame' read
    cases b with
    | true => exact leads_atThen can (parts.tested.stays open_).2 atYes.func read rfl startsYes
    | false => exact leads_atThen can (parts.tested.stays open_).2 atYes.func read rfl startsNo
  -- both branches end with a jump to the third block
  apply decides.branch
  · intro σ₁ frame₁ shows₁
    apply (first before₂ freshYes.isOpen shows₁).before (Nat.le_refl 1) _ freshJoin.isOpen
    exact fun _ open' => Activation.leads_jump can.sound open' atNo.func rfl startsJoin
  · intro σ₁ frame₁ shows₁
    apply (second before₃ freshNo.isOpen shows₁).before (Nat.le_refl 1) _ freshJoin.isOpen
    exact fun _ open' => Activation.leads_jump can.sound open' before.func rfl startsJoin

theorem whileLoop_translates (test : Expr) {body : Lower Unit} {layout : Layout → Layout}
    {exec : Layout → Behaviour R A} (lowers : Lowers bad body)
    (translates : Translates act F layout exec body) :
    Translates act F layout
      (fun L => Behaviour.loop (test.holds act.interpretation L) (exec L))
      (whileLoop (condition test) body) := by
  intro s s' id c c' L ready fits run there
  obtain ⟨v, s₁, c₁, s₂, c₂, rfl, parts⟩ :=
    loopRun_of_whileLoop (condition_lowersTo test) lowers ready run
  obtain rfl := parts.closed.ready.here.unique there
  have inside := ready.here.inside
  have fits₀ : L.Fits (s.put id (atCondition c)).scopes (atCondition c).func :=
    fits.of_slots (by simp [atCondition])
  have fits₁ : L.Fits s₁.scopes c₁.func := fits₀.step parts.tested
  obtain ⟨fits₂, round⟩ := translates parts.forked.ready (fits₁.of_slots (by simp [atBody])) parts.body
    parts.round.ready.here
  refine ⟨fits₂.of_slots (by simp [atAfter]), fun before open_ frame σ shows => ?_⟩
  have before₂ := before.earlier parts.round.ready parts.closed
  have inBody := before₂.earlier parts.forked.ready parts.round.toGrows
  have before₁ := inBody.earlier parts.tested.ready parts.forked
  have inTest := before₁.earlier parts.opened.ready parts.tested.toGrows
  have freshTest := fresh_atCondition inside (Nat.le_refl _) (by omega)
  have freshBody := parts.fresh_atBody inside (Nat.lt_succ_self _) (by omega)
  have freshAfter := parts.fresh_atAfter inside
  have startsTest := freshTest.starts (Nat.ne_zero_of_lt inside) inTest.func
  have startsBody := freshBody.starts (Nat.succ_ne_zero _) inBody.func
  have startsAfter := freshAfter.starts (Nat.succ_ne_zero _) before.func
  have openTest : (atCondition c).IsOpen := freshTest.isOpen
  -- from before the loop to the condition
  have enters : act.Leads F 1 c frame (atCondition c) frame := by
    have added := Cursor.isOpen_addBlocks c "whilecond" "whilebody" "whileafter" open_
    have later := inTest.func
    rw [atCondition] at later
    have later' := (Cursor.extends_jump added.1 _ _).trans later
    have same : act.Leads F 0 c frame (c.addBlocks "whilecond" "whilebody" "whileafter") frame :=
      Activation.leads_of_code rfl (Cursor.code_addBlocks ..) later'
    exact same.trans (Activation.leads_jump can.sound added later rfl startsTest)
  -- from the condition to the body or behind the loop
  have decides : ∀ σ frame, frame.Shows F σ → act.Decides F (atCondition c) (atBody c c₁ v)
      (atAfter c c₂) frame (test.holds act.interpretation L σ) := by
    intro σ₁ frame₁ shows₁
    apply (condition_computes can L test parts.opened.ready fits₀ parts.test parts.tested.ready.here
      before₁ openTest shows₁).decides
    intro b frame' read
    have open₁ := (parts.tested.stays openTest).2
    cases b with
    | true => exact Activation.leads_fork can.sound open₁ inBody.func read rfl startsBody
    | false => exact Activation.leads_fork can.sound open₁ inBody.func read rfl startsAfter
  -- and from the body back to the condition
  have rounds : ∀ σ frame, frame.Shows F σ → act.Realises F (atBody c c₁ v) (atCondition c) frame
      (exec L σ) := by
    intro σ₁ frame₁ shows₁
    apply (round before₂ freshBody.isOpen shows₁).before (Nat.le_refl 1) _ openTest
    exact fun _ open' => Activation.leads_jump can.sound open' before.func rfl startsTest
  exact (Activation.realises_loop decides rounds freshAfter.isOpen shows).after (Nat.le_refl 1) enters

end branches

/-! ## All statements -/

theorem roundOf_translates (can : act.CanRun F) {body : Stmt} (step : Option Expr)
    (translates : Translates act F body.layout (body.Exec act.interpretation) (stmt body)) :
    Translates act F
      (fun L => match step with
        | none => body.layout L
        | some _ => L.close (body.layout L))
      (fun L => (body.Exec act.interpretation L).andThen
        (match step with
        | none => Behaviour.skip
        | some step => Behaviour.effect act.interpretation (body.layout L) step))
      (roundOf body step) := by
  cases step with
  | none =>
    simp only [Behaviour.andThen_skip]
    exact translates
  | some step =>
    have steps := effect_evaluates step
    have round := seq_translates (stmt_lowers body) steps.lowers translates
      (effect_translates can step)
    exact withBlockScope_translates (seq_lowers (stmt_lowers body) steps.lowers) round

theorem behindInitial_translates {initial : Option Stmt} {loop : Lower Unit}
    {layout : Layout → Layout} {exec : Layout → Behaviour R A} (lowers : Lowers bad loop)
    (first : Translates act F (Stmt.optionalLayout initial)
      (Stmt.ExecOptional act.interpretation initial) (optional initial))
    (translates : Translates act F layout exec loop) :
    Translates act F
      (fun L => match initial with
        | none => layout L
        | some initial => L.close (layout (initial.layout L)))
      (fun L => (Stmt.ExecOptional act.interpretation initial L).andThen
        (exec (Stmt.optionalLayout initial L)))
      (behindInitial initial loop) := by
  cases initial with
  | none =>
    simp only [Stmt.ExecOptional, Behaviour.skip_andThen]
    exact translates
  | some initial =>
    have starts := optional_lowers (some initial)
    have both := seq_translates starts lowers first translates
    exact withBlockScope_translates (seq_lowers starts lowers) both

theorem forLoop_translates (can : act.CanRun F) (initial : Option Stmt) (test step : Option Expr)
    (body : Stmt)
    (first : Translates act F (Stmt.optionalLayout initial)
      (Stmt.ExecOptional act.interpretation initial) (optional initial))
    (translates : Translates act F body.layout (body.Exec act.interpretation) (stmt body)) :
    Translates act F (Stmt.forLoop initial test step body).layout
      ((Stmt.forLoop initial test step body).Exec act.interpretation)
      (stmt (.forLoop initial test step body)) := by
  have lowers := roundOf_lowers step (stmt_lowers body)
  have loop := whileLoop_translates can (test.getD Stmt.always) lowers
    (roundOf_translates can step translates)
  have whole := behindInitial_translates (whileLoop_lowers (condition_lowersTo _) lowers) first loop
  rw [stmt_forLoop]
  cases initial <;> cases step <;> exact whole

theorem function_translates (name : Token) (params : List Token) {body : Lower Unit}
    (lowers : Lowers bad body) :
    Translates act F (fun L => L) (fun _ => Behaviour.skip) (function name params body) := by
  intro s s' id c c' L ready fits run there
  obtain ⟨step, scopes⟩ := (function_yields name params lowers ready).ok run
  obtain rfl := step.ready.here.unique there
  exact ⟨scopes ▸ fits, fun before open_ frame σ shows => realises_skip open_ before.func shows⟩

mutual

theorem stmt_translates (can : act.CanRun F) : ∀ st : Stmt,
    Translates act F st.layout (st.Exec act.interpretation) (stmt st)
  | .expression e => by
    rw [stmt]
    exact effect_translates can e
  | .print e => print_translates can e
  | .declare var initial => declare_translates can var initial
  | .block body => by
    rw [stmt]
    exact withBlockScope_translates (stmts_lowers body) (stmts_translates can body)
  | .ifElse test yes no => by
    rw [stmt]
    have branches := ifElse_translates can test (stmt_lowers yes) (optional_lowers no)
      (stmt_translates can yes) (optional_translates can no)
    exact branches
  | .whileLoop test body => by
    rw [stmt]
    exact whileLoop_translates can test (stmt_lowers body) (stmt_translates can body)
  | .forLoop initial test step body =>
    forLoop_translates can initial test step body (optional_translates can initial)
      (stmt_translates can body)
  | .function name params body => by
    rw [stmt]
    exact function_translates name params (stmts_lowers body)
  | .ret keyword value => ret_translates can keyword value
  | .brk _ => by
    rw [stmt]
    exact skip_translates

theorem stmts_translates (can : act.CanRun F) : ∀ ss : List Stmt,
    Translates act F (Stmt.listLayout ss) (Stmt.ExecAll act.interpretation ss) (stmts ss)
  | [] => by
    rw [stmts]
    exact skip_translates
  | st :: ss => by
    rw [stmts]
    have both := seq_translates (stmt_lowers st) (stmts_lowers ss) (stmt_translates can st)
      (stmts_translates can ss)
    exact both

theorem optional_translates (can : act.CanRun F) : ∀ st : Option Stmt,
    Translates act F (Stmt.optionalLayout st) (Stmt.ExecOptional act.interpretation st) (optional st)
  | none => by
    rw [optional]
    exact skip_translates
  | some st => by
    rw [optional]
    exact stmt_translates can st

end

end Lower

end ImpCompiler
