import ImpCompiler.Proofs.Lowering.Definitions
import ImpCompiler.Proofs.Semantics.Statements

/-! # Lowering keeps the meaning of functions

A function of the module does what its definition says: from its first block on, it ends with the
same calls and the same value, or neither of the two ends (`lowerProgram_preserves`). -/

namespace ImpCompiler

open Ssa

variable {R A : Type}

/-! ## The start of a function -/

/-- The slots at the head of the first block are made one after the other. -/
theorem Ssa.Activation.exists_frame_of_slots (act : Activation R A) (f : Func) (is : List Instr)
    (slots : ∀ i ∈ is, i.isAlloca = true) (distinct : (is.filterMap Instr.result?).Nodup)
    (frame : Frame R A) :
    ∃ frame' : Frame R A,
      (∀ fuel b rest, act.run f fuel b (is ++ rest) frame = act.run f fuel b rest frame') ∧
      frame'.slots = frame.slots ∧ frame'.trace = frame.trace ∧
      (∀ k id ty, is[k]? = some (.alloca id ty) → frame'.locals id = some (.slot (frame.made + k))) ∧
      ∀ id, id ∉ is.filterMap Instr.result? → frame'.locals id = frame.locals id := by
  induction is generalizing frame with
  | nil => exact ⟨frame, fun _ _ _ => rfl, rfl, rfl, fun _ _ _ found => (nomatch found), fun _ _ => rfl⟩
  | cons i is ih =>
    cases i with
    | alloca result ty =>
      have parts : result ∉ is.filterMap Instr.result? ∧ (is.filterMap Instr.result?).Nodup :=
        List.nodup_cons.mp distinct
      obtain ⟨frame', runs, same, trace, places, others⟩ :=
        ih (fun i member => slots i (List.mem_cons_of_mem _ member)) parts.2
          { frame.setLocal result (.slot frame.made) with made := frame.made + 1 }
      refine ⟨frame', fun fuel b rest => ?_, same, trace, ?_, ?_⟩
      · rw [List.cons_append, Activation.run_cons]
        exact runs fuel b rest
      · intro k id ty found
        cases k with
        | zero =>
          cases found
          -- no later slot has the same local
          rw [others result parts.1]
          exact if_pos rfl
        | succ k =>
          rw [places k id ty found, Nat.add_assoc, Nat.add_comm 1 k]
      · intro id absent
        have other : id ≠ result ∧ id ∉ is.filterMap Instr.result? :=
          List.ne_and_not_mem_of_not_mem_cons absent
        rw [others id other.2]
        exact if_neg other.1
    | _ => cases slots _ List.mem_cons_self

/-- The locals of the slots of the first block are distinct. -/
theorem Ssa.Func.Sound.nodup_slots {m : Module} {F : Func} (sound : F.Sound m) {block : Block}
    (first : F.blocks[0]? = some block) : ((F.slots 0).filterMap Instr.result?).Nodup := by
  apply List.Pairwise.sublist _ sound.nodup
  apply List.Sublist.filterMap
  have member : block.instrs.toList ∈ F.blocks.toList.map fun b => b.instrs.toList :=
    List.mem_map_of_mem (Array.mem_toList_iff.mpr (Array.mem_of_getElem? first))
  have head : (F.slots 0).Sublist block.instrs.toList := by
    rw [Func.slots_eq first, ← block.slots_append_code]
    exact List.sublist_append_left ..
  exact head.trans (List.sublist_flatten_of_mem member)

/-! ## Parameters -/

namespace State

/-- The state in which `count` variables, from number `index` on, have the arguments with
    those numbers. -/
def pass (σ : State R A) (args : List (Val R A)) (index count : Nat) : State R A :=
  { σ with store := fun k => if index ≤ k ∧ k < index + count then args[k]? else σ.store k }

theorem pass_zero (σ : State R A) (args : List (Val R A)) (index : Nat) : σ.pass args index 0 = σ := by
  have none : ∀ k, ¬ (index ≤ k ∧ k < index + 0) := by omega
  simp only [pass, none, if_false]

theorem pass_assign {args : List (Val R A)} {index : Nat} {x : Val R A}
    (found : args[index]? = some x) (σ : State R A) (count : Nat) :
    (σ.assign index x).pass args (index + 1) count = σ.pass args index (count + 1) := by
  simp only [pass, assign, mk.injEq, and_true]
  funext k
  by_cases same : k = index
  · subst same
    rw [if_neg (by omega), if_pos rfl, if_pos (by omega), found]
  · rw [if_neg same]
    have range : (index + 1 ≤ k ∧ k < index + 1 + count) ↔ (index ≤ k ∧ k < index + (count + 1)) := by
      omega
    simp only [range]

/-- At the start of a call, the variables of the parameters have the arguments. -/
theorem pass_eq_start (args : List (BitVec 32)) :
    pass ⟨fun _ => none, []⟩ (args.map .i32) 0 args.length = (Definition.start args : State R A) := by
  simp only [pass, Definition.start, mk.injEq, and_true, List.getElem?_map]
  funext k
  split
  · rfl
  · rename_i beyond
    rw [List.getElem?_eq_none (by omega)]
    rfl

end State

namespace Lower

variable {act : Activation R A} {F : Func} {id : Nat} {s s' : LowerState} {c c' : Cursor}

/-- Execution of a function starts behind the slots, with no variable that has a value. -/
theorem exists_frame_at_entry (can : act.CanRun F) {d : Definition} (later : d.entry.func.Extends F) :
    ∃ frame : Frame R A, frame.Shows F ⟨fun _ => none, []⟩ ∧
      ∀ t r, act.Runs F t r ↔ ∃ fuel, act.resume F fuel d.entry frame = some (t, r) := by
  obtain ⟨block, first⟩ : ∃ block, F.blocks[0]? = some block :=
    ⟨_, Array.getElem?_eq_getElem (Nat.lt_of_lt_of_le (Nat.succ_pos 0) later.size)⟩
  have slots : ∀ i ∈ F.slots 0, i.isAlloca = true := by
    rw [Func.slots_eq first]
    exact fun i member => Block.isAlloca_of_mem_slots member
  obtain ⟨frame, runs, store, trace, places, _⟩ :=
    act.exists_frame_of_slots F (F.slots 0) slots (can.sound.nodup_slots first) .start
  refine ⟨frame, ⟨store, trace, ?_, fun _ _ found => (nomatch found)⟩, fun t r => ?_⟩
  · intro k id ty found
    rw [places k id ty found]
    exact congrArg (fun n => some (Word.slot n)) (Nat.zero_add k)
  · have rest : F.rest d.entry = F.code 0 := rfl
    have instrs : block.instrs.toList = F.slots 0 ++ F.code 0 := by
      rw [Func.slots_eq first, Func.code_eq first, block.slots_append_code]
    simp only [Activation.Runs, first, Option.some.injEq, exists_eq_left', instrs, runs,
      Activation.resume, rest]
    rfl

theorem storeParams_simulates (can : act.CanRun F) {index : Nat} {params : List Token} {L : Layout}
    (fits : L.Fits s.scopes c.func) (ready : s.Ready id c) (numbers : NumbersFrom index params c.func)
    (next : L.next = index) (run : storeParams index params s = .ok () s')
    (there : s'.emitter.At id c') :
    (params.foldl (fun L param => L.declare param.text) L).Fits s'.scopes c'.func ∧
      (s'.Precedes c' act F → c.IsOpen → c'.IsOpen ∧ ∀ {frame σ}, frame.Shows F σ →
        (∀ k, k < params.length → ∃ n, act.args[index + k]? = some (.i32 n)) →
        act.Simulates F c c' frame (some ((), σ.pass act.args index params.length))
          fun _ _ => True) := by
  induction params generalizing index s c L with
  | nil =>
    cases run
    obtain rfl := ready.here.unique there
    refine ⟨fits, fun before open_ => ⟨open_, fun {frame σ} shows _ => ?_⟩⟩
    rw [List.length_nil, State.pass_zero]
    exact Activation.simulates_pure rfl rfl before.func shows trivial
  | cons param params ih =>
    obtain ⟨s₁, c₁, usable, run₁, step₁, rest, run₂⟩ := storeParams_cons_eq_ok ready numbers run
    obtain ⟨c₂, step₂⟩ := (storeParams_yields (index + 1) params step₁.ready rest).ok run₂
    obtain rfl := step₂.ready.here.unique there
    obtain ⟨fits₁, first⟩ := declare_simulates can fits ready step₁.ready.here usable run₁
    obtain ⟨fits₂, others⟩ := ih fits₁ step₁.ready rest (congrArg (· + 1) next) run₂
    refine ⟨fits₂, fun before open_ => ?_⟩
    -- the first parameter takes its argument, then the others take theirs
    obtain ⟨open₁, assigns⟩ := first (before.earlier step₁.ready step₂.toGrows) open_
    obtain ⟨open₂, passes⟩ := others before open₁
    refine ⟨open₂, fun {frame σ} shows values => ?_⟩
    obtain ⟨n, value⟩ := values 0 (Nat.succ_pos _)
    rw [Nat.add_zero] at value
    have holds : act.Holds (.param index .i32) (.i32 n) frame := by
      simp [Activation.Holds, Activation.read, Activation.word, value]
      rfl
    have assigned := assigns shows holds
    rw [next] at assigned
    rw [List.length_cons, ← State.pass_assign value]
    show act.Simulates F c c' frame (some ((.i32 n : Val R A), σ.assign index (.i32 n)) >>= fun p =>
      some ((), p.2.pass act.args (index + 1) params.length)) _
    apply assigned.bind (step₁.func ready).size_locals
    intro _ σ₁ frame₁ shows₁ _
    apply passes shows₁
    intro k bound
    rw [Nat.add_assoc, Nat.add_comm 1 k]
    exact values (k + 1) (Nat.succ_lt_succ bound)

/-! ## Whole functions -/

/-- Behind the body of a function, 0 is returned. -/
theorem resume_atEnd (open_ : c.IsOpen) (later : (atEnd c).func.Extends F) (frame : Frame R A)
    (fuel : Nat) : act.resume F (fuel + 1) c frame = some (frame.trace, .i32 0) := by
  have ends : atEnd c = c.terminate (.ret (some (.i32 0))) := by
    rw [atEnd, Cursor.close, open_.2]
    rfl
  rw [ends] at later
  rw [Activation.resume_ret open_ later]
  rfl

/-- What is realised between the entry of a function and its end is what the function does. -/
theorem runs_iff_of_realises {entry : Cursor} {frame : Frame R A} {completes : Completion R A → Prop}
    (realises : act.Realises F entry c frame completes) (later : (atEnd c).func.Extends F)
    (t : List (Event R A)) (r : Val R A) :
    (completes (.returned t r) ∨ ∃ σ, completes (.normal σ) ∧ t = σ.trace ∧ r = .i32 0) ↔
      ∃ fuel, act.resume F fuel entry frame = some (t, r) := by
  constructor
  · intro done
    cases done with
    | inl returned => exact realises.returned t r returned
    | inr normal =>
      obtain ⟨σ, done, rfl, rfl⟩ := normal
      obtain ⟨open_, jumps, frame', leads, shows⟩ := realises.normal σ done
      refine ⟨1 + jumps, ?_⟩
      rw [leads, resume_atEnd open_ later, shows.trace]
  · intro done
    obtain ⟨fuel, ends⟩ := done
    cases realises.complete fuel t r ends with
    | inl returned => exact .inl returned
    | inr normal =>
      obtain ⟨σ, frame', left, done, shows, _, ends'⟩ := normal
      obtain ⟨open_, _⟩ := realises.normal σ done
      -- what is left to do behind the body is to return 0
      cases left with
      | zero => cases ends'
      | succ left =>
        rw [resume_atEnd open_ later, shows.trace] at ends'
        cases ends'
        exact .inr ⟨σ, done, rfl, rfl⟩

theorem WrittenFor.runs_iff {d : Definition} {k : Nat} {m : Module} (written : WrittenFor d k F m)
    (sound : F.Sound m) (numbers : ∀ id ty, F.HasSlot id ty → ty = .i32) (I : Interpretation R A)
    {args : List (BitVec 32)} (count : args.length = d.params.length) (t : List (Event R A))
    (r : Val R A) : d.Runs I args t r ↔ (Activation.mk I m (args.map .i32)).Runs F t r := by
  obtain ⟨s₀, s₁, c₁, s₂, c₂, entered, empty, parts, all, later⟩ := written.run
  let act := Activation.mk I m (args.map .i32)
  have can : act.CanRun F := ⟨sound, numbers⟩
  have ended : (atEnd c₂).func.Extends F := by
    rw [all]
    exact .refl _
  have before₂ : s₂.Precedes c₂ act F := ⟨later, (parts.ended.func parts.written.ready).trans ended⟩
  have before₁ := before₂.earlier parts.stored.ready parts.written.toGrows
  have before₀ := before₁.earlier entered parts.stored.toGrows
  have fits₀ : Layout.empty.Fits s₀.scopes d.entry.func :=
    ⟨rfl, fun name binding found => nomatch (empty name).symm.trans found⟩
  obtain ⟨fits₁, passes⟩ := storeParams_simulates can fits₀ entered (numbersFrom_declared d.name d.params)
    rfl parts.params parts.stored.ready.here
  have realises := (stmts_translates can d.body parts.stored.ready fits₁ parts.body
    parts.written.ready.here).2 before₂
  -- the slots are made, the arguments stored, and then the body is executed
  obtain ⟨frame, shows, runs⟩ := exists_frame_at_entry can before₀.func
  obtain ⟨open₁, passes⟩ := passes before₁ ⟨entered.here.inside, rfl⟩
  have values : ∀ k, k < d.params.length → ∃ n, act.args[0 + k]? = some (.i32 n) := by
    intro k bound
    have inside : k < args.length := count ▸ bound
    exact ⟨args[k], by simp [act, inside]⟩
  obtain ⟨frame₁, leads, shows₁, _⟩ := passes shows values
  rw [← count, State.pass_eq_start] at shows₁
  have whole := (realises open₁ shows₁).after (Nat.zero_le 1) leads
  rw [Definition.Runs, runs]
  exact runs_iff_of_realises whole ended t r

end Lower

theorem Ssa.Module.Sound.functionByName?_eq {m : Module} (sound : m.Sound) {k : Nat} {f : Func}
    (found : m.functions[k]? = some f) : m.functionByName? f.name = some f := by
  obtain ⟨bound, rfl⟩ := Array.getElem?_eq_some_iff.mp found
  rw [Module.functionByName?, Array.find?_eq_some_iff_getElem]
  refine ⟨by simp, k, bound, rfl, fun j earlier => ?_⟩
  have last : k < (m.functions.toList.map Func.name).length := by simpa using bound
  have first : j < (m.functions.toList.map Func.name).length := Nat.lt_trans earlier last
  have other : (m.functions.toList.map Func.name)[j] ≠ (m.functions.toList.map Func.name)[k] :=
    fun same => Nat.ne_of_lt earlier ((List.getElem_inj sound.names).mp same)
  simpa using other

/-- Each function of a program is in its module, and where all slots of it are for numbers, it ends
    for the same arguments, with the same calls and the same value. -/
theorem lowerProgram_preserves {moduleName : String} {statements : List Stmt} {m : Module}
    (accepted : lowerProgram moduleName statements = .ok m) :
    ∀ d ∈ programFunctions statements, ∃ f, m.functionByName? d.name = some f ∧
      ((∀ id ty, .alloca id ty ∈ f.instrs → ty = .i32) →
        ∀ (R A : Type) (I : Interpretation R A) (args : List (BitVec 32)),
          args.length = d.params.length → ∀ (t : List (Event R A)) (r : Val R A),
            d.Runs I args t r ↔ (Activation.mk I m (args.map .i32)).Runs f t r) := by
  have complete := complete_of_lowerProgram accepted
  intro d member
  obtain ⟨k, f, _, written⟩ := (covers_of_lowerProgram accepted).all d member
  have sound := complete.sound.functions k f written.found
  refine ⟨f, ?_, fun numbers R A I args count t r => ?_⟩
  · rw [← written.name]
    exact complete.sound.functionByName?_eq written.found
  · apply written.runs_iff sound _ I count
    intro id ty slot
    exact numbers id ty (Func.mem_instrs.mpr ⟨0, .inl slot⟩)

/-- A function that counts down from its argument and prints each number: executed with 2, its
    blocks print 2 and 1 and return 0, and so that is what the definition says. -/
theorem lowerProgram_preserves_countdown :
    let token := fun kind text => (⟨kind, text, ⟨1, 1⟩⟩ : Token)
    let number := fun text => Expr.literal (token .intLiteral text)
    let n := token .identifier "n"
    let body : List Stmt := [.whileLoop (.binary (.name n) (token .compare ">") (number "0"))
        (.block [.print (.name n),
          .expression (.assign n (.binary (.name n) (token .arithmetic "-") (number "1")))]),
      .ret (token .keyword "return") (some (.name n))]
    let statements : List Stmt := [.function (token .identifier "countdown") [n] body]
    let I : Interpretation Unit Unit := ⟨fun _ => (), fun _ _ => (), fun _ _ => (), fun _ _ => (),
      fun _ _ => (), fun _ => (), fun _ _ => true, fun _ _ => true, fun _ _ => true, fun _ _ => true,
      fun _ _ => true, fun _ _ => true, fun _ => (), fun _ _ => some 0⟩
    let printed := fun k => (⟨"print_integer", [.i32 k]⟩ : Event Unit Unit)
    ∃ m f, lowerProgram "m" statements = .ok m ∧ m.functionByName? "countdown" = some f ∧
      (Activation.mk I m [.i32 2]).Runs f [printed 2, printed 1] (.i32 0) ∧
      (⟨"countdown", [n], body⟩ : Definition).Runs I [2] [printed 2, printed 1] (.i32 0) := by
  intro token number n body statements I printed
  have checked : (lowerProgram "m" statements).toOption.any (fun m =>
      (m.functionByName? "countdown").any fun f =>
        decide (∀ i ∈ f.instrs, i.isAlloca = true → i = .alloca 0 .i32) &&
          f.blocks[0]?.any fun block =>
            (Activation.mk I m [.i32 2]).run f 8 0 block.instrs.toList .start =
              some ([printed 2, printed 1], .i32 0)) = true := by decide +kernel
  obtain ⟨m, lowered, checked⟩ := (Option.any_eq_true _ _).mp checked
  have run := eq_ok_of_toOption lowered
  have member : ⟨"countdown", [n], body⟩ ∈ programFunctions statements :=
    List.mem_cons_of_mem _ List.mem_cons_self
  obtain ⟨f, named, same⟩ := lowerProgram_preserves run _ member
  simp only [named, Option.any_some, Bool.and_eq_true, decide_eq_true_eq] at checked
  obtain ⟨block, first, executed⟩ := (Option.any_eq_true _ _).mp checked.2
  have numbers : ∀ id ty, .alloca id ty ∈ f.instrs → ty = .i32 := by
    intro id ty inside
    cases checked.1 _ inside rfl
    rfl
  have runs : (Activation.mk I m [.i32 2]).Runs f [printed 2, printed 1] (.i32 0) :=
    ⟨8, block, first, of_decide_eq_true executed⟩
  exact ⟨m, f, run, named, runs, (same numbers Unit Unit I [2] rfl _ _).mpr runs⟩

end ImpCompiler
