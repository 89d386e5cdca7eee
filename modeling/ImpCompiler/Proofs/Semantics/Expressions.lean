import ImpCompiler.Proofs.Semantics.Simulation

/-! # Expressions keep their meaning

The instructions for an expression compute its value: they have the same effects, end with the
value in the operand that stands for the expression, and are stuck where the expression is.

A value has the type of its operand.  A variable is read as a number whatever its slot is for,
which is where slots for numbers are needed. -/

namespace ImpCompiler

open Ssa

variable {R A : Type}

/-! ## Operations -/

section operations

variable {I : Interpretation R A} {op name : String} {x y : Val R A}

/-- The operation for an operator does what the operator means. -/
theorem apply_of_arithmeticOp? {operation : BinaryOp}
    (found : Lower.arithmeticOp? op x.ty = some (operation, name)) (same : y.ty = x.ty) :
    operation.apply I x y = Val.arithmetic I op x y := by
  unfold Lower.arithmeticOp? at found
  cases x with
  | i1 a =>
    cases y <;> cases same
    simp only [Val.ty, Ty.isInt, if_true] at found
    split at found <;> cases found <;> rfl
  | i32 a =>
    cases y <;> cases same
    simp only [Val.ty, Ty.isInt, if_true] at found
    split at found <;> cases found <;> rfl
  | real a =>
    cases y <;> cases same
    simp only [Val.ty, Ty.isInt, Ty.isFloat, Bool.false_eq_true, if_false, if_true] at found
    split at found <;> cases found <;> rfl
  | address a => simp [Val.ty, Ty.isInt, Ty.isFloat] at found

theorem ty_of_arithmetic {z : Val R A} (done : Val.arithmetic I op x y = some z) : z.ty = x.ty := by
  unfold Val.arithmetic at done
  split at done
  · obtain ⟨_, _, rfl⟩ := Option.map_eq_some_iff.mp done
    rfl
  · obtain ⟨_, _, rfl⟩ := Option.map_eq_some_iff.mp done
    rfl
  · obtain ⟨_, _, rfl⟩ := Option.map_eq_some_iff.mp done
    rfl
  · cases done

theorem apply_of_intTest? {test : IntTest} (found : Lower.intTest? op = some test)
    (int : x.ty.isInt = true) (same : y.ty = x.ty) : test.apply x y = Val.comparison I op x y := by
  unfold Lower.intTest? at found
  cases x with
  | i1 a =>
    cases y <;> cases same
    split at found <;> cases found <;> rfl
  | i32 a =>
    cases y <;> cases same
    split at found <;> cases found <;> rfl
  | real a => cases int
  | address a => cases int

theorem apply_of_floatTest? {test : FloatTest} (found : Lower.floatTest? op = some test)
    (float : x.ty = .f64) (same : y.ty = x.ty) :
    test.apply I x y = Val.comparison I op x y := by
  unfold Lower.floatTest? at found
  cases x <;> cases float
  cases y <;> cases same
  split at found <;> cases found <;> rfl

theorem ty_of_comparison {z : Val R A} (done : Val.comparison I op x y = some z) : z.ty = .i1 := by
  unfold Val.comparison at done
  split at done
  · obtain ⟨_, _, rfl⟩ := Option.map_eq_some_iff.mp done
    rfl
  · obtain ⟨_, _, rfl⟩ := Option.map_eq_some_iff.mp done
    rfl
  · obtain ⟨_, _, rfl⟩ := Option.map_eq_some_iff.mp done
    rfl
  · cases done

theorem ty_of_negate (done : Val.negate I x = some y) : y.ty = x.ty := by
  cases x <;> cases done <;> rfl

theorem ty_of_complement (done : Val.complement x = some y) : y.ty = x.ty := by
  cases x <;> cases done <;> rfl

/-- A truth value is the word for whether it is other than zero. -/
theorem ofBool_ne_zero : ∀ a : BitVec 1, BitVec.ofBool (a != 0) = a := by
  decide

section operand

variable {act : Activation R A} {frame : Frame R A} {operand : Value}
variable (read : act.read frame operand = some x) (int : x.ty.isInt = true) (k : Nat)

include read int

/-- Zero less a word is the word with its sign changed. -/
theorem exec_negate : act.exec frame (.binary k .sub (.constInt x.ty 0) operand) =
    (Val.negate act.interpretation x).map fun y => frame.setLocal k (.value y) := by
  cases x with
  | i1 a =>
    have zero : act.read frame (.constInt (Val.i1 a : Val R A).ty 0) = some (.i1 0) := rfl
    rw [Activation.exec_binary zero read]
    simp [BinaryOp.apply, BinaryOp.onWords, Val.negate]
  | i32 a =>
    have zero : act.read frame (.constInt (Val.i32 a : Val R A).ty 0) = some (.i32 0) := rfl
    rw [Activation.exec_binary zero read]
    simp [BinaryOp.apply, BinaryOp.onWords, Val.negate]
  | real a => cases int
  | address a => cases int

/-- A word that is combined with -1 has all its bits changed. -/
theorem exec_complement : act.exec frame (.binary k .xor operand (.constInt x.ty (-1))) =
    (Val.complement x).map fun y => frame.setLocal k (.value y) := by
  cases x with
  | i1 a =>
    have ones : act.read frame (.constInt (Val.i1 a : Val R A).ty (-1)) =
      some (.i1 (BitVec.allOnes 1)) := rfl
    rw [Activation.exec_binary read ones]
    simp only [BinaryOp.apply, BinaryOp.onWords, Val.complement, BitVec.xor_allOnes, Option.map_some]
  | i32 a =>
    have ones : act.read frame (.constInt (Val.i32 a : Val R A).ty (-1)) =
      some (.i32 (BitVec.allOnes 32)) := rfl
    rw [Activation.exec_binary read ones]
    simp only [BinaryOp.apply, BinaryOp.onWords, Val.complement, BitVec.xor_allOnes, Option.map_some]
  | real a => cases int
  | address a => cases int

end operand

end operations

/-! ## Places and values -/

/-- The variables of the layout are those of the scopes, in the order of the slots of `f`. -/
structure Layout.Fits (L : Layout) (scopes : Scopes) (f : Func) : Prop where
  next : L.next = (f.slots 0).length
  names : ∀ name binding, scopes.lookup name = some binding →
    ∃ k id, L.lookup name = some k ∧ binding.slot = .result id .ptr ∧
      (f.slots 0)[k]? = some (.alloca id binding.ty)

/-- What is written at the cursor `c` is part of the module and the function that are executed. -/
structure LowerState.Precedes (s : LowerState) (c : Cursor) (act : Activation R A) (F : Func) :
    Prop where
  module : s.emitter.module.Extends act.module
  func : c.func.Extends F

theorem Ssa.Func.Extends.size_locals {f F : Func} (later : f.Extends F) :
    f.locals.size ≤ F.locals.size := by
  cases Nat.lt_or_ge F.locals.size f.locals.size with
  | inl less =>
    have found := later.locals _ _ (Array.getElem?_eq_getElem less)
    simp at found
  | inr bound => exact bound

section steps

variable {act : Activation R A} {F : Func} {bad : Prop} {id : Nat} {s s' : LowerState} {c c' : Cursor}

theorem LowerState.Precedes.earlier (later : s'.Precedes c' act F) (ready : s.Ready id c)
    (grows : Lower.Grows bad id s c s' c') : s.Precedes c act F where
  module := grows.module.trans later.module
  func := (grows.func ready).trans later.func

theorem Layout.Fits.of_slots {L : Layout} {scopes : Scopes} {f f' : Func} (fits : L.Fits scopes f)
    (same : f'.slots 0 = f.slots 0) : L.Fits scopes f' :=
  ⟨by rw [same, fits.next], by rw [same]; exact fits.names⟩

theorem Layout.Fits.step {L : Layout} (fits : L.Fits s.scopes c.func)
    (step : Lower.ExprStep id s c s' c') : L.Fits s'.scopes c'.func := by
  rw [step.scopes]
  exact fits.of_slots step.slots

/-- An operand has a value, of its own type. -/
def Ssa.Activation.Holds (act : Activation R A) (v : Value) (x : Val R A) (frame : Frame R A) : Prop :=
  act.read frame v = some x ∧ x.ty = v.ty

/-- Operands keep their values while new locals are defined. -/
theorem Ssa.Activation.Holds.agrees {v : Value} {x : Val R A} {frame frame' : Frame R A}
    (holds : act.Holds v x frame) (usable : s.CanUse c v)
    (agrees : frame'.Agrees frame c.func.locals.size) : act.Holds v x frame' := by
  have same : act.word frame' v = act.word frame v := by
    cases usable with
    | constInt int => rename_i ty _; cases ty <;> rfl
    | constFloat => rfl
    | global _ => rfl
    | param _ _ => rfl
    | result _ _ found _ => exact agrees _ (Array.getElem?_eq_some_iff.mp found).1
  refine ⟨?_, holds.2⟩
  rw [Activation.read, same]
  exact holds.1

end steps

/-! ## Results of instructions -/

/-- Two instructions of a function that define the same local are the same. -/
theorem eq_of_nodup_filterMap {α β : Type} {results : α → Option β} {is : List α} {i j : α} {k : β}
    (nodup : (is.filterMap results).Nodup) (first : i ∈ is) (second : j ∈ is)
    (defines : results i = some k) (defines' : results j = some k) : i = j := by
  induction is with
  | nil => cases first
  | cons h is ih =>
    have later : ∀ {x}, x ∈ is → results x = some k → k ∈ is.filterMap results :=
      fun member defines => List.mem_filterMap.mpr ⟨_, member, defines⟩
    have rest : (is.filterMap results).Nodup := by
      rw [List.filterMap_cons] at nodup
      split at nodup
      · exact nodup
      · exact (List.nodup_cons.mp nodup).2
    have alone : results h = some k → k ∉ is.filterMap results := by
      intro head
      rw [List.filterMap_cons, head] at nodup
      exact (List.nodup_cons.mp nodup).1
    cases first with
    | head =>
      cases second with
      | head => rfl
      | tail _ second => exact absurd (later second defines') (alone defines)
    | tail _ first =>
      cases second with
      | head => exact absurd (later first defines) (alone defines')
      | tail _ second => exact ih rest first second

/-- The local of an instruction is not that of a slot. -/
theorem Ssa.Func.Sound.slot_ne_result {m : Module} {F : Func} (sound : F.Sound m) {b k id id' : Nat}
    {ty : Ty} {i : Instr} (member : i ∈ F.code b) (defines : i.result? = some id)
    (slot : (F.slots 0)[k]? = some (.alloca id' ty)) : id' ≠ id := by
  intro same
  have first : i ∈ F.instrs := Func.mem_instrs.mpr ⟨b, .inr member⟩
  have second : .alloca id' ty ∈ F.instrs := Func.mem_instrs.mpr ⟨0, .inl (List.mem_of_getElem? slot)⟩
  have equal := eq_of_nodup_filterMap sound.nodup first second defines (congrArg some same)
  obtain ⟨before, behind, split⟩ := List.append_of_mem member
  have plain := (sound.code b before i behind split).isAlloca_eq_false
  rw [equal] at plain
  cases plain

namespace Lower

variable {act : Activation R A} {F : Func} (can : act.CanRun F)
variable {id : Nat} {s s' : LowerState} {c c' : Cursor} {frame : Frame R A} {σ : State R A}

section instructions

variable (open_ : c.IsOpen) (shows : frame.Shows F σ) {i : Instr} {ty : Ty} {name : String}
variable (defines : i.result? = some c.func.locals.size) (plain : i.isAlloca = false)
variable (later : (c.pushResult ty name i).func.Extends F)

include can open_ shows defines plain later

/-- An instruction computes a value; a call may also lengthen the trace. -/
theorem simulates_result {meaning : Option (Val R A × State R A)}
    (exec : act.exec frame i = meaning.map fun p =>
      Frame.setLocal { frame with trace := p.2.trace } c.func.locals.size (.value p.1))
    (kept : ∀ x σ', meaning = some (x, σ') → σ'.store = σ.store ∧ x.ty = ty) :
    act.Simulates F c (c.pushResult ty name i) frame meaning
      (act.Holds (.result c.func.locals.size ty)) := by
  have block := Cursor.block_pushResult open_ ty name i
  have code : (c.pushResult ty name i).func.code c.block = c.func.code c.block ++ [i] := by
    rw [Cursor.code_pushResult open_.1 plain, if_pos block.symm]
  have member : i ∈ F.code c.block := (later.code c.block).subset (by simp [code])
  apply Activation.simulates_instr block code later exec
  intro x σ' done
  obtain ⟨store, typed⟩ := kept x σ' done
  refine ⟨⟨?_, rfl, ?_, ?_⟩, ?_, ?_, typed⟩
  · exact shows.store.trans store.symm
  -- no slot has the local of the instruction, so all places stay
  · intro k id' ty' slot
    have other := can.sound.slot_ne_result member defines slot
    exact (if_neg other).trans (shows.places k id' ty' slot)
  · rw [store]
    exact shows.numbers
  · intro id' below
    exact if_neg (Nat.ne_of_lt below)
  · simp [Activation.read, Activation.word, Frame.setLocal]

theorem simulates_value {x? : Option (Val R A)}
    (exec : act.exec frame i = x?.map fun x => frame.setLocal c.func.locals.size (.value x))
    (typed : ∀ x, x? = some x → x.ty = ty) :
    act.Simulates F c (c.pushResult ty name i) frame (do let x ← x?; return (x, σ))
      (act.Holds (.result c.func.locals.size ty)) := by
  apply simulates_result can open_ shows defines plain later
  · rw [exec]
    cases x? with
    | none => rfl
    | some x =>
      show some _ = some (Frame.setLocal { frame with trace := σ.trace } _ _)
      rw [← shows.trace]
  · intro x σ' done
    cases x? with
    | none => cases done
    | some x =>
      cases done
      exact ⟨rfl, typed x rfl⟩

end instructions

section runs

variable (ready : s.Ready id c) (open_ : c.IsOpen) (shows : frame.Shows F σ)
variable (there : s'.emitter.At id c') (before : s'.Precedes c' act F)

include ready open_ shows there before

theorem literal_simulates {t : Token} {v : Value} (run : literal t s = .ok v s') :
    act.Simulates F c c' frame (do let x ← Val.ofLiteral act.interpretation t; return (x, σ))
      (act.Holds v) := by
  -- but for a text, nothing is written for a literal
  have constant : ∀ {w : Value} {x : Val R A}, (pure w : Lower Value) s = .ok v s' →
      act.Holds w x frame → act.Simulates F c c' frame (some (x, σ)) (act.Holds v) := by
    intro w x run holds
    cases run
    obtain rfl := ready.here.unique there
    exact Activation.simulates_pure rfl rfl before.func shows holds
  rw [literal] at run
  rw [Val.ofLiteral]
  cases kind : t.kind with
  | intLiteral =>
    cases value : int32OfText? t.text with
    | none =>
      simp only [kind, value] at run
      cases run
    | some n =>
      simp only [kind, value] at run
      exact constant run ⟨rfl, rfl⟩
  | floatLiteral =>
    cases value : Binary64.ofText? t.text with
    | none =>
      simp only [kind, value] at run
      cases run
    | some bits =>
      simp only [kind, value] at run
      exact constant run ⟨rfl, rfl⟩
  | boolLiteral =>
    simp only [kind] at run
    by_cases yes : t.text = "true"
    · simp only [yes] at run ⊢
      exact constant run ⟨rfl, rfl⟩
    · by_cases no : t.text = "false"
      · simp only [no] at run ⊢
        exact constant run ⟨rfl, rfl⟩
      · simp only at run
        cases run
  | stringLiteral =>
    simp only [kind] at run
    cases run
    have same : c' = c := ready.here.unique ⟨there.point, there.function, there.inside⟩
    subst same
    have found := before.module.globals _ _ Array.getElem?_push_size
    apply Activation.simulates_pure rfl rfl before.func shows
    exact ⟨by simp only [Activation.read, Activation.word, found, Option.map_some], rfl⟩
  | _ =>
    simp only [kind] at run
    cases run

/-- A value is stored to a variable. -/
theorem store_simulates {value : Value} {x : Val R A} {slot k : Nat}
    (run : emit (Emitter.store value (.result slot .ptr)) s = .ok () s')
    (holds : act.Holds value x frame) (place : act.place frame (.result slot .ptr) = some k)
    (number : x.ty = .i32) :
    act.Simulates F c c' frame (some (x, σ.assign k x)) (act.Holds value) := by
  rw [Emitter.store, push_eq ready.here] at run
  cases run
  obtain rfl := (ready.here.put (Cursor.isOpen_push ready.here.inside).1).unique there
  have exec : act.exec frame (.store value (.result slot .ptr)) =
      (some (x, σ.assign k x)).map fun _ => frame.setSlot k x := by
    simp [Activation.exec, holds.1, place]
  apply Activation.simulates_push open_ rfl before.func exec
  intro y σ' done
  cases done
  refine ⟨⟨?_, shows.trace, shows.places, ?_⟩, fun _ _ => rfl, holds⟩
  · simp only [Frame.setSlot, State.assign, shows.store]
  · intro j y stored
    simp only [State.assign] at stored
    split at stored
    · cases stored
      exact number
    · exact shows.numbers j y stored

include can

/-- An action writes an instruction that computes a value. -/
theorem pushResult_simulates {ty : Ty} {name : String} (make : Nat → Instr) {v : Value}
    (run : emit (Emitter.pushResult ty name make) s = .ok v s')
    (defines : ∀ k, (make k).result? = some k) (plain : ∀ k, (make k).isAlloca = false)
    {x? : Option (Val R A)}
    (exec : ∀ k, act.exec frame (make k) = x?.map fun x => frame.setLocal k (.value x))
    (typed : ∀ x, x? = some x → x.ty = ty) :
    act.Simulates F c c' frame (do let x ← x?; return (x, σ)) (act.Holds v) := by
  rw [pushResult_eq ready.here] at run
  cases run
  have inside := (Cursor.isOpen_pushResult ready.here.inside ty name (i := make c.func.locals.size)).1
  obtain rfl := (ready.here.put inside).unique there
  exact simulates_value can open_ shows (defines _) (plain _) before.func (exec _) typed

theorem binary_simulates {op : Token} {l r v : Value} {x y : Val R A}
    (run : binary op l r s = .ok v s') (left : act.Holds l x frame) (right : act.Holds r y frame) :
    act.Simulates F c c' frame (do let z ← Val.binary act.interpretation op x y; return (z, σ))
      (act.Holds v) := by
  have written := @pushResult_simulates _ _ _ _ can _ _ _ _ _ _ _ ready open_ shows there before
  rw [binary] at run
  split at run
  · cases run
  · rename_i same
    have types : y.ty = x.ty := by rw [right.2, left.2, Classical.not_not.mp same]
    cases kind : op.kind with
    | arithmetic =>
      rw [Val.binary, kind]
      cases found : arithmeticOp? op.text l.ty with
      | none =>
        simp only [kind, found] at run
        cases run
      | some operation =>
        simp only [kind, found] at run
        rw [← left.2] at found
        apply written _ run (fun _ => rfl) (fun _ => rfl)
        · intro k
          rw [Activation.exec_binary left.1 right.1, apply_of_arithmeticOp? found types]
        · exact fun z done => (ty_of_arithmetic done).trans left.2
    | compare =>
      simp only [kind] at run
      rw [Val.binary, kind]
      split at run
      · rename_i int
        rw [← left.2] at int
        cases found : intTest? op.text with
        | none =>
          simp only [found] at run
          cases run
        | some test =>
          simp only [found] at run
          apply written _ run (fun _ => rfl) (fun _ => rfl)
          · intro k
            rw [Activation.exec_icmp left.1 right.1,
              apply_of_intTest? (I := act.interpretation) found int types]
          · exact fun z done => ty_of_comparison done
      · split at run
        · rename_i float
          have real := left.2.trans (eq_f64_of_isFloat float)
          cases found : floatTest? op.text with
          | none =>
            simp only [found] at run
            cases run
          | some test =>
            simp only [found] at run
            apply written _ run (fun _ => rfl) (fun _ => rfl)
            · intro k
              rw [Activation.exec_fcmp left.1 right.1, apply_of_floatTest? found real types]
            · exact fun z done => ty_of_comparison done
        · cases run
    | _ =>
      simp only [kind] at run
      cases run

theorem unary_simulates {op : Token} {operand v : Value} {x : Val R A}
    (run : unary op operand s = .ok v s') (holds : act.Holds operand x frame) :
    act.Simulates F c c' frame (do let y ← Val.unary act.interpretation op x; return (y, σ))
      (act.Holds v) := by
  have written := @pushResult_simulates _ _ _ _ can _ _ _ _ _ _ _ ready open_ shows there before
  rw [unary, ← holds.2] at run
  rw [Val.unary]
  by_cases minus : op.text = "-"
  · simp only [minus] at run ⊢
    split at run
    · rename_i int
      exact written _ run (fun _ => rfl) (fun _ => rfl) (exec_negate holds.1 int) fun _ => ty_of_negate
    · split at run
      · rename_i float
        cases x with
        | real a =>
          apply written _ run (fun _ => rfl) (fun _ => rfl)
          · intro k
            rw [Activation.exec, holds.1]
            rfl
          · exact fun _ => ty_of_negate
        | _ => cases float
      · cases run
  · by_cases bang : op.text = "!"
    · simp only [bang] at run ⊢
      split at run
      · rename_i int
        apply written _ run (fun _ => rfl) (fun _ => rfl) (exec_complement holds.1 int)
        exact fun y done => (ty_of_complement done).trans holds.2
      · cases run
    · -- no other operator is supported
      simp only at run
      cases run

theorem test_simulates {value v : Value} {x : Val R A} {position : Position}
    (run : test value position s = .ok v s') (holds : act.Holds value x frame) :
    act.Simulates F c c' frame (do let b ← x.truth act.interpretation; return (b, σ))
      fun b frame' => act.read frame' v = some (.ofBool b) := by
  have written := @pushResult_simulates _ _ _ _ can _ _ _ _ _ _ _ ready open_ shows there before
  rw [test, ← holds.2] at run
  cases x with
  | i1 a =>
    cases run
    obtain rfl := ready.here.unique there
    apply Activation.simulates_pure rfl rfl before.func shows
    rw [holds.1, Val.ofBool, ofBool_ne_zero]
  | i32 a =>
    have zero : act.read frame (.i32 0) = some (.i32 0) := rfl
    have exec := fun k => Activation.exec_icmp holds.1 zero k .ne
    obtain ⟨frame', leads, shows', agrees, holds'⟩ := written _ run (fun _ => rfl) (fun _ => rfl) exec
      (by rintro _ ⟨⟩; rfl)
    exact ⟨frame', leads, shows', agrees, holds'.1⟩
  | real a =>
    have zero : act.read frame (.constFloat 0) = some (.real (act.interpretation.real 0)) := rfl
    have exec := fun k => Activation.exec_fcmp holds.1 zero k .one
    obtain ⟨frame', leads, shows', agrees, holds'⟩ := written _ run (fun _ => rfl) (fun _ => rfl) exec
      (by rintro _ ⟨⟩; rfl)
    exact ⟨frame', leads, shows', agrees, holds'.1⟩
  | address a => cases run

end runs

/-! ## Variables -/

theorem lookup_eq_ok {name : Token} {binding : Binding} (run : lookup name s = .ok binding s') :
    s' = s ∧ s.scopes.lookup name.text = some binding := by
  obtain ⟨t, middle, read, run⟩ := bind_eq_ok run
  cases read
  cases found : s.scopes.lookup name.text with
  | none =>
    simp only [found] at run
    cases run
  | some binding =>
    simp only [found] at run
    cases run
    exact ⟨rfl, rfl⟩

/-- A variable that is visible has a place. -/
theorem place_of_lookup (act : Activation R A) {L : Layout} (fits : L.Fits s.scopes c.func)
    (later : c.func.Extends F) (shows : frame.Shows F σ) {name : String} {binding : Binding}
    (found : s.scopes.lookup name = some binding) :
    ∃ k slot, L.lookup name = some k ∧ binding.slot = .result slot .ptr ∧
      F.HasSlot slot binding.ty ∧ act.place frame (.result slot .ptr) = some k := by
  obtain ⟨k, slot, visible, address, made⟩ := fits.names name binding found
  have made' : (F.slots 0)[k]? = some (.alloca slot binding.ty) := by
    obtain ⟨more, all⟩ := later.slots 0
    rw [← all, List.getElem?_append_left (List.getElem?_eq_some_iff.mp made).1, made]
  refine ⟨k, slot, visible, address, List.mem_of_getElem? made', ?_⟩
  simp only [Activation.place, Activation.word, shows.places k slot binding.ty made']

section named

variable {L : Layout} (fits : L.Fits s.scopes c.func)
variable (ready : s.Ready id c) (open_ : c.IsOpen) (shows : frame.Shows F σ)
variable (there : s'.emitter.At id c') (before : s'.Precedes c' act F)

include can fits ready open_ shows there before

theorem name_simulates {var : Token} {v : Value} (run : expr (.name var) s = .ok v s') :
    act.Simulates F c c' frame ((Expr.name var).eval act.interpretation L σ) (act.Holds v) := by
  obtain ⟨c₁, step, _⟩ := (name_lowersTo var s id c ready).ok run
  obtain rfl := step.ready.here.unique there
  rw [expr] at run
  obtain ⟨binding, middle, look, load⟩ := bind_eq_ok run
  obtain ⟨rfl, found⟩ := lookup_eq_ok look
  obtain ⟨k, slot, visible, address, _, place⟩ := place_of_lookup act fits
    (before.earlier ready step.toGrows).func shows found
  rw [address] at load
  rw [Expr.eval, visible]
  apply pushResult_simulates can ready open_ shows there before _ load (fun _ => rfl) (fun _ => rfl)
  · intro j
    simp only [Activation.exec, place, Option.bind_eq_bind, Option.bind_some, shows.store]
    cases stored : σ.store k with
    | none => rfl
    | some x =>
      -- all variables hold numbers, and a number is read
      simp only [Option.bind_some, shows.numbers k x stored, if_true, Option.map_some]
  · exact shows.numbers k

theorem assign_simulates {target : Token} {value v : Value} {x : Val R A}
    (usable : s.CanUse c value) (run : assign target value s = .ok v s')
    (holds : act.Holds value x frame) :
    act.Simulates F c c' frame (do let k ← L.lookup target.text; return (x, σ.assign k x))
      (act.Holds v) := by
  obtain ⟨c₁, step, _⟩ := (assign_gives ready target usable).ok run
  obtain rfl := step.ready.here.unique there
  obtain ⟨binding, middle, look, rest⟩ := bind_eq_ok run
  obtain ⟨rfl, found⟩ := lookup_eq_ok look
  obtain ⟨k, slot, visible, address, made, place⟩ := place_of_lookup act fits
    (before.earlier ready step.toGrows).func shows found
  rw [visible]
  split at rest
  · cases rest
  · rename_i same
    -- the value has the type of the slot, and all slots are for numbers
    have number : x.ty = .i32 := by
      rw [holds.2, Classical.not_not.mp same]
      exact can.numbers slot binding.ty made
    obtain ⟨_, last, store, done⟩ := bind_eq_ok rest
    cases done
    rw [address] at store
    exact store_simulates ready open_ shows there before store holds place number

end named

/-! ## Calls -/

/-- A call changes no variable, and gives a number. -/
theorem call_keeps {I : Interpretation R A} {e : Event R A} {σ' : State R A} {x : Val R A}
    (done : σ.call I e = some (x, σ')) : σ'.store = σ.store ∧ x.ty = .i32 := by
  obtain ⟨r, _, same⟩ := Option.map_eq_some_iff.mp done
  cases same
  exact ⟨rfl, rfl⟩

include can

/-- A call is made with arguments whose values are known. -/
theorem emit_call_simulates (ready : s.Ready id c) (earlier : s.Precedes c act F) (open_ : c.IsOpen)
    (shows : frame.Shows F σ) (there : s'.emitter.At id c') (before : s'.Precedes c' act F)
    {callee : Nat} {g : Func} (found : s.emitter.module.functions[callee]? = some g)
    {args : List Value} {xs : List (Val R A)} {name : String} {v? : Option Value}
    (run : emit (Emitter.call callee args name) s = .ok v? s')
    (values : args.mapM (act.read frame) = some xs) :
    act.Simulates F c c' frame (σ.call act.interpretation ⟨g.name, xs⟩)
      fun x frame' => ∀ v, v? = some v → act.Holds v x frame' := by
  obtain ⟨G, found', later⟩ := earlier.module.functions callee g found
  have exec := Activation.exec_call values found'
  rw [later.name, shows.trace] at exec
  have emits := Emitter.call_eq ready.here found args name
  -- a call without a value is written without a local
  by_cases void : g.returnType = .void
  · rw [if_pos void] at emits
    rw [emit_eq emits] at run
    cases run
    obtain rfl := (ready.here.put (Cursor.isOpen_push ready.here.inside).1).unique there
    have effect : act.exec frame (.call none callee args) =
        (σ.call act.interpretation ⟨g.name, xs⟩).map fun p => { frame with trace := p.2.trace } := by
      rw [exec, State.call, Option.map_map]
      rfl
    apply Activation.simulates_push open_ rfl before.func effect
    intro x σ' done
    have store := (call_keeps done).1
    refine ⟨⟨shows.store.trans store.symm, rfl, shows.places, ?_⟩, fun _ _ => rfl, nofun⟩
    rw [store]
    exact shows.numbers
  · rw [if_neg void] at emits
    rw [emit_eq emits] at run
    cases run
    have number : g.returnType = .i32 :=
      (ready.sound.returns callee g found).resolve_right fun declared => void declared.1
    rw [number] at there before ⊢
    have inside := (Cursor.isOpen_pushResult ready.here.inside .i32 name
      (i := .call (some c.func.locals.size) callee args)).1
    obtain rfl := (ready.here.put inside).unique there
    have effect : act.exec frame (.call (some c.func.locals.size) callee args) =
        (σ.call act.interpretation ⟨g.name, xs⟩).map fun p =>
          Frame.setLocal { frame with trace := p.2.trace } c.func.locals.size (.value p.1) := by
      rw [exec, State.call, Option.map_map]
      rfl
    apply (simulates_result can open_ shows rfl rfl before.func effect fun _ _ => call_keeps).mono
    intro x frame' holds v same
    cases same
    exact holds

omit can

/-! ## All expressions -/

/-- The action writes code with this meaning; `post` relates its result to the value and to the
    frame behind the code. -/
def Computes {α β : Type} (act : Activation R A) (F : Func) (L : Layout) (action : Lower β)
    (meaning : State R A → Option (α × State R A)) (post : β → α → Frame R A → Prop) : Prop :=
  ∀ ⦃s s' id c c' b frame σ⦄, s.Ready id c → L.Fits s.scopes c.func → action s = .ok b s' →
    s'.emitter.At id c' → s'.Precedes c' act F → c.IsOpen → frame.Shows F σ →
    act.Simulates F c c' frame (meaning σ) (post b)

/-- Operands have these values. -/
def HoldAll (act : Activation R A) (vs : List Value) (xs : List (Val R A)) (frame : Frame R A) : Prop :=
  vs.mapM (act.read frame) = some xs

include can

theorem call_computes {L : Layout} (callee : Token) (es : List Expr)
    (computes : ∀ types, types.length = es.length →
      Computes act F L (args callee.text 0 es types) (Expr.evalAll act.interpretation L es)
        (HoldAll act)) :
    Computes act F L (call callee es.length (args callee.text 0 es))
      ((Expr.call callee es).eval act.interpretation L)
      fun v? x frame => ∀ v, v? = some v → act.Holds v x frame := by
  intro s s' id c c' v? frame σ ready fits run there before open_ shows
  obtain ⟨found?, middle, find, rest⟩ := bind_eq_ok run
  cases find
  cases found : s.emitter.module.findFunction? callee.text with
  | none =>
    simp only [found] at rest
    cases rest
  | some k =>
    simp only [found] at rest
    obtain ⟨g, function, named⟩ := Module.findFunction?_eq_some found
    rw [bind_eq_of_ok (emit_eq (Emitter.function_eq_of_found function))] at rest
    split at rest
    · cases rest
    · rename_i length
      have count := Classical.not_not.mp length
      obtain ⟨vs, s₁, argsRun, callRun⟩ := bind_eq_ok rest
      obtain ⟨c₁, step₁, usable, types⟩ :=
        (args_gives callee.text 0 es ready g.paramTypes count).ok argsRun
      -- the callee may be the current function, which has grown since it was found
      obtain ⟨G, function', later⟩ := step₁.module.functions k g function
      have types' : vs.map Value.ty = G.paramTypes := by rw [types, later.paramTypes]
      obtain ⟨c₂, step₂, _⟩ := (emit_call_gives step₁.ready function' usable types' "calltmp").ok callRun
      obtain rfl := step₂.ready.here.unique there
      have before₁ := before.earlier step₁.ready step₂.toGrows
      rw [Expr.eval]
      apply (computes _ count ready fits argsRun step₁.ready.here before₁ open_ shows).bind
        (step₁.func ready).size_locals
      intro xs σ₁ frame₁ shows₁ values
      have sim := emit_call_simulates can step₁.ready before₁ (step₁.stays open_).2 shows₁ there before
        function' callRun values
      rw [later.name, named] at sim
      exact sim

omit can

mutual

theorem expr_computes (can : act.CanRun F) (L : Layout) : ∀ e : Expr,
    Computes act F L (expr e) (e.eval act.interpretation L) act.Holds
  | .binary left op right => by
    intro s s' id c c' v frame σ ready fits run there before open_ shows
    rw [expr] at run
    obtain ⟨l, s₁, run₁, rest⟩ := bind_eq_ok run
    obtain ⟨r, s₂, run₂, run₃⟩ := bind_eq_ok rest
    obtain ⟨c₁, step₁, useLeft, _⟩ := (expr_lowersTo left s id c ready).ok run₁
    obtain ⟨c₂, step₂, useRight, _⟩ := (expr_lowersTo right s₁ id c₁ step₁.ready).ok run₂
    obtain ⟨c₃, step₃, _⟩ := (binary_gives step₂.ready op (useLeft.step step₂ step₁.ready)
      useRight).ok run₃
    obtain rfl := step₃.ready.here.unique there
    have before₂ := before.earlier step₂.ready step₃.toGrows
    have before₁ := before₂.earlier step₁.ready step₂.toGrows
    have open₁ := (step₁.stays open_).2
    rw [Expr.eval]
    apply (expr_computes can L left ready fits run₁ step₁.ready.here before₁ open_ shows).bind
      (step₁.func ready).size_locals
    intro x σ₁ frame₁ shows₁ holdsLeft
    -- the value of the left operand has to last while the right one is computed
    apply (expr_computes can L right step₁.ready (fits.step step₁) run₂ step₂.ready.here before₂ open₁
      shows₁).agreeing.bind (step₂.func step₁.ready).size_locals
    intro y σ₂ frame₂ shows₂ holds
    exact binary_simulates can step₂.ready (step₂.stays open₁).2 shows₂ there before run₃
      (holdsLeft.agrees useLeft holds.2) holds.1
  | .unary op operand => by
    intro s s' id c c' v frame σ ready fits run there before open_ shows
    rw [expr] at run
    obtain ⟨w, s₁, run₁, run₂⟩ := bind_eq_ok run
    obtain ⟨c₁, step₁, usable, _⟩ := (expr_lowersTo operand s id c ready).ok run₁
    obtain ⟨c₂, step₂, _⟩ := (unary_gives step₁.ready op usable).ok run₂
    obtain rfl := step₂.ready.here.unique there
    rw [Expr.eval]
    apply (expr_computes can L operand ready fits run₁ step₁.ready.here
      (before.earlier step₁.ready step₂.toGrows) open_ shows).bind (step₁.func ready).size_locals
    intro x σ₁ frame₁ shows₁ holds
    exact unary_simulates can step₁.ready (step₁.stays open_).2 shows₁ there before run₂ holds
  | .literal value => by
    intro s s' id c c' v frame σ ready fits run there before open_ shows
    rw [expr] at run
    rw [Expr.eval]
    exact literal_simulates ready open_ shows there before run
  | .name var => by
    intro s s' id c c' v frame σ ready fits run there before open_ shows
    exact name_simulates can fits ready open_ shows there before run
  | .assign target value => by
    intro s s' id c c' v frame σ ready fits run there before open_ shows
    rw [expr] at run
    obtain ⟨w, s₁, run₁, run₂⟩ := bind_eq_ok run
    obtain ⟨c₁, step₁, usable, _⟩ := (expr_lowersTo value s id c ready).ok run₁
    obtain ⟨c₂, step₂, _⟩ := (assign_gives step₁.ready target usable).ok run₂
    obtain rfl := step₂.ready.here.unique there
    rw [Expr.eval]
    apply (expr_computes can L value ready fits run₁ step₁.ready.here
      (before.earlier step₁.ready step₂.toGrows) open_ shows).bind (step₁.func ready).size_locals
    intro x σ₁ frame₁ shows₁ holds
    exact assign_simulates can (fits.step step₁) step₁.ready (step₁.stays open_).2 shows₁ there before
      usable run₂ holds
  | .call callee arguments => by
    intro s s' id c c' v frame σ ready fits run there before open_ shows
    rw [expr] at run
    obtain ⟨v?, s₁, callRun, rest⟩ := bind_eq_ok run
    cases v? with
    | none => cases rest
    | some w =>
      cases rest
      have computes := call_computes can callee arguments (args_computes can L callee.text 0 arguments)
      exact (computes ready fits callRun there before open_ shows).mono fun x frame' holds =>
        holds v rfl
  | .group inner => by
    intro s s' id c c' v frame σ ready fits run there before open_ shows
    rw [expr] at run
    rw [Expr.eval]
    exact expr_computes can L inner ready fits run there before open_ shows

theorem args_computes (can : act.CanRun F) (L : Layout) (callee : String) (index : Nat) :
    ∀ (es : List Expr) (types : List Ty), types.length = es.length →
      Computes act F L (args callee index es types) (Expr.evalAll act.interpretation L es)
        (HoldAll act)
  | [], types, length => by
    intro s s' id c c' vs frame σ ready fits run there before open_ shows
    cases List.length_eq_zero_iff.mp length
    cases run
    obtain rfl := ready.here.unique there
    exact Activation.simulates_pure rfl rfl before.func shows rfl
  | e :: es, ty :: types, length => by
    intro s s' id c c' vs frame σ ready fits run there before open_ shows
    rw [args] at run
    obtain ⟨v, s₁, run₁, rest⟩ := bind_eq_ok run
    split at rest
    · cases rest
    · obtain ⟨ws, s₂, run₂, last⟩ := bind_eq_ok rest
      cases last
      obtain ⟨c₁, step₁, usable, _⟩ := (expr_lowersTo e s id c ready).ok run₁
      have count := Nat.succ.inj length
      obtain ⟨c₂, step₂, _⟩ := (args_gives callee (index + 1) es step₁.ready types count).ok run₂
      obtain rfl := step₂.ready.here.unique there
      rw [Expr.evalAll]
      apply (expr_computes can L e ready fits run₁ step₁.ready.here
        (before.earlier step₁.ready step₂.toGrows) open_ shows).bind (step₁.func ready).size_locals
      intro x σ₁ frame₁ shows₁ holds
      apply (args_computes can L callee (index + 1) es types count step₁.ready (fits.step step₁) run₂ there
        before (step₁.stays open_).2 shows₁).agreeing.bind (step₂.func step₁.ready).size_locals
      intro xs σ₂ frame₂ shows₂ all
      apply Activation.simulates_pure rfl rfl before.func shows₂
      -- the first argument still has its value
      have first := (holds.agrees usable all.2).1
      have others : ws.mapM (act.read frame₂) = some xs := all.1
      simp [HoldAll, first, others]

end

end Lower

end ImpCompiler
