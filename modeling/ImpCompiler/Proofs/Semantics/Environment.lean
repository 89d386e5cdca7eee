import ImpCompiler.Proofs.Tree.Braced
import Mathlib.Data.List.Forall2

/-! # Variables as bindings of an environment

The meaning of programs gives a number to each declaration of the text.  Here is a second meaning
without numbers.  An environment holds the bindings of names to values, the innermost first: a
declaration adds a binding, an assignment changes the innermost one of its name, and behind a block
only those bindings are left that were there before it.

The two agree wherever no declaration is a branch or the body of a loop by itself, and so on all
programs that are parsed (`runs_iff_runsIn_of_parseTokens`).  What a program means thus does not
depend on how its variables are numbered.

`Env.Shows` ties the two: the bindings are the visible variables with the values that these have in
the store.  Variables that are no longer visible keep their values in the store, but no binding shows
them, and a declaration gives its variable a value before it can be seen again. -/

namespace ImpCompiler

variable {R A : Type} (I : Interpretation R A)

/-! ## Environments -/

/-- The bindings of names to values, the innermost first, and the calls made so far. -/
structure Env (R A : Type) where
  bindings : List (String × Val R A)
  trace : List (Event R A)

namespace Env

/-- The value of the innermost binding of a name. -/
def lookup (ε : Env R A) (name : String) : Option (Val R A) :=
  ε.bindings.lookup name

/-- Adds a binding, which hides the others of its name. -/
def bind (ε : Env R A) (name : String) (v : Val R A) : Env R A :=
  { ε with bindings := (name, v) :: ε.bindings }

/-- The bindings with another value in the innermost one of a name. -/
def rebind (name : String) (v : Val R A) : List (String × Val R A) → Option (List (String × Val R A))
  | [] => none
  | (x, w) :: rest => if name = x then some ((x, v) :: rest) else (rebind name v rest).map ((x, w) :: ·)

def assign (ε : Env R A) (name : String) (v : Val R A) : Option (Env R A) :=
  (rebind name v ε.bindings).map fun bindings => { ε with bindings := bindings }

/-- Makes a call, which gives a number. -/
def call (ε : Env R A) (e : Event R A) : Option (Val R A × Env R A) :=
  (I.call ε.trace e).map fun r => (.i32 r, { ε with trace := ε.trace ++ [e] })

/-- Behind a block that was entered with `outer`: of the bindings, as many are left as there were. -/
def leave (ε outer : Env R A) : Env R A :=
  { ε with bindings := ε.bindings.drop (ε.bindings.length - outer.bindings.length) }

end Env

mutual

/-- The value of an expression and the environment behind it. -/
def Expr.evalIn : Expr → Env R A → Option (Val R A × Env R A)
  | .binary left op right, ε => do
    let (x, ε) ← left.evalIn ε
    let (y, ε) ← right.evalIn ε
    let z ← Val.binary I op x y
    return (z, ε)
  | .unary op operand, ε => do
    let (x, ε) ← operand.evalIn ε
    let y ← Val.unary I op x
    return (y, ε)
  | .literal value, ε => do
    let x ← Val.ofLiteral I value
    return (x, ε)
  | .name var, ε => do
    let x ← ε.lookup var.text
    return (x, ε)
  | .assign target value, ε => do
    let (x, ε) ← value.evalIn ε
    let ε ← ε.assign target.text x
    return (x, ε)
  | .call callee arguments, ε => do
    let (xs, ε) ← Expr.evalAllIn arguments ε
    ε.call I ⟨callee.text, xs⟩
  | .group inner, ε => inner.evalIn ε

/-- The values of expressions, from left to right. -/
def Expr.evalAllIn : List Expr → Env R A → Option (List (Val R A) × Env R A)
  | [], ε => some ([], ε)
  | e :: es, ε => do
    let (x, ε) ← e.evalIn ε
    let (xs, ε) ← Expr.evalAllIn es ε
    return (x :: xs, ε)

end

/-- Whether a condition holds. -/
def Expr.holdsIn (e : Expr) (ε : Env R A) : Option (Bool × Env R A) := do
  let (x, ε) ← e.evalIn I ε
  let b ← x.truth I
  return (b, ε)

namespace Env

/-- How execution of a statement ends. -/
inductive Completion (R A : Type) where
  | normal (ε : Env R A)
  | returned (trace : List (Event R A)) (v : Val R A)

/-- What a statement can do. -/
abbrev Behaviour (R A : Type) := Env R A → Completion R A → Prop

namespace Behaviour

def skip : Behaviour R A :=
  fun ε o => o = .normal ε

def andThen (first second : Behaviour R A) : Behaviour R A := fun ε o =>
  (∃ ε', first ε (.normal ε') ∧ second ε' o) ∨ ∃ t v, o = .returned t v ∧ first ε (.returned t v)

inductive loop (test : Env R A → Option (Bool × Env R A)) (body : Behaviour R A) : Behaviour R A
  | stop {ε ε' : Env R A} (ends : test ε = some (false, ε')) : loop test body ε (.normal ε')
  | again {ε ε₁ ε₂ : Env R A} {o : Completion R A} (holds : test ε = some (true, ε₁))
      (round : body ε₁ (.normal ε₂)) (rest : loop test body ε₂ o) : loop test body ε o
  | leave {ε ε₁ : Env R A} {t : List (Event R A)} {v : Val R A}
      (holds : test ε = some (true, ε₁)) (round : body ε₁ (.returned t v)) :
      loop test body ε (.returned t v)

def effect (e : Expr) : Behaviour R A := fun ε o =>
  ∃ x ε', e.evalIn I ε = some (x, ε') ∧ o = .normal ε'

/-- The bindings that are made within end behind it. -/
def enclosed (body : Behaviour R A) : Behaviour R A := fun ε =>
  body.andThen (fun ε' o => o = .normal (ε'.leave ε)) ε

end Behaviour

end Env

mutual

/-- Execution of a statement. -/
def Stmt.ExecIn : Stmt → Env.Behaviour R A
  | .expression e => Env.Behaviour.effect I e
  | .print e => fun ε o => ∃ x ε₁ r ε₂,
      e.evalIn I ε = some (x, ε₁) ∧ ε₁.call I x.printing = some (r, ε₂) ∧ o = .normal ε₂
  | .declare var none => fun ε o => o = .normal (ε.bind var.text (.i32 0))
  | .declare var (some e) => fun ε o => ∃ x ε',
      e.evalIn I ε = some (x, ε') ∧ o = .normal (ε'.bind var.text x)
  | .block body => (Stmt.ExecAllIn body).enclosed
  | .ifElse test yes no => fun ε o => ∃ b ε', test.holdsIn I ε = some (b, ε') ∧
      if b then yes.ExecIn ε' o else Stmt.ExecOptionalIn no ε' o
  | .whileLoop test body => Env.Behaviour.loop (test.holdsIn I) body.ExecIn
  | .forLoop initial test step body =>
    let round := body.ExecIn.andThen
      (match step with
      | none => Env.Behaviour.skip
      | some step => Env.Behaviour.effect I step)
    ((Stmt.ExecOptionalIn initial).andThen
      (Env.Behaviour.loop ((test.getD Stmt.always).holdsIn I) round)).enclosed
  | .function _ _ _ => Env.Behaviour.skip
  | .ret _ none => fun _ _ => False
  | .ret _ (some e) => fun ε o => ∃ x ε',
      e.evalIn I ε = some (x, ε') ∧ o = .returned ε'.trace x
  | .brk _ => Env.Behaviour.skip

/-- Execution of statements in order. -/
def Stmt.ExecAllIn : List Stmt → Env.Behaviour R A
  | [] => Env.Behaviour.skip
  | s :: ss => s.ExecIn.andThen (Stmt.ExecAllIn ss)

/-- Execution of a statement that may be absent. -/
def Stmt.ExecOptionalIn : Option Stmt → Env.Behaviour R A
  | none => Env.Behaviour.skip
  | some s => s.ExecIn

end

namespace Definition

/-- The environment at the start of a call: the last parameter is the innermost binding. -/
def enter (d : Definition) (args : List (BitVec 32)) : Env R A :=
  (d.params.zip args).foldl (fun ε p => ε.bind p.1.text (.i32 p.2)) ⟨[], []⟩

/-- A call with the arguments `args` ends: it makes the calls `t` and returns `r`. -/
def RunsIn (d : Definition) (args : List (BitVec 32)) (t : List (Event R A)) (r : Val R A) : Prop :=
  Stmt.ExecAllIn I d.body (d.enter args) (.returned t r) ∨
    ∃ ε, Stmt.ExecAllIn I d.body (d.enter args) (.normal ε) ∧ t = ε.trace ∧ r = .i32 0

end Definition

/-! ## Visible variables -/

namespace Layout

/-- Variables that are declared later have greater numbers, and all of them have smaller ones than the
    next. -/
def Ordered (L : Layout) : Prop :=
  (L.next :: L.visible.map Prod.snd).Pairwise (· > ·)

theorem ordered_empty : empty.Ordered :=
  List.pairwise_singleton ..

theorem Ordered.declare {L : Layout} (ordered : L.Ordered) (name : String) : (L.declare name).Ordered := by
  refine List.pairwise_cons.mpr ⟨fun k member => ?_, ordered⟩
  cases member with
  | head => exact Nat.lt_succ_self L.next
  | tail _ later => exact Nat.lt_succ_of_lt (List.rel_of_pairwise_cons ordered later)

/-- What is visible stays so in the inner layout, behind what is declared there. -/
structure Within (L inner : Layout) : Prop where
  visible : L.visible <:+ inner.visible
  ordered : L.Ordered → inner.Ordered

namespace Within

variable {L inner innermost : Layout}

theorem refl (L : Layout) : L.Within L :=
  ⟨List.suffix_rfl, id⟩

theorem trans (first : L.Within inner) (second : inner.Within innermost) : L.Within innermost :=
  ⟨first.visible.trans second.visible, fun ordered => second.ordered (first.ordered ordered)⟩

theorem declare (L : Layout) (name : String) : L.Within (L.declare name) :=
  ⟨List.suffix_cons .., fun ordered => ordered.declare name⟩

theorem close (within : L.Within inner) : L.Within (L.close inner) where
  visible := List.suffix_rfl
  ordered ordered :=
    (within.ordered ordered).sublist ((within.visible.sublist.map Prod.snd).cons_cons inner.next)

end Within

end Layout

mutual

theorem Stmt.within_layout : ∀ (st : Stmt) (L : Layout), L.Within (st.layout L)
  | .declare var _, L => .declare L var.text
  | .block body, L => (Stmt.within_listLayout body L).close
  | .ifElse _ yes no, L => (Stmt.within_layout yes L).trans (Stmt.within_optionalLayout no _)
  | .whileLoop _ body, L => Stmt.within_layout body L
  | .forLoop none _ none body, L => Stmt.within_layout body L
  | .forLoop none _ (some _) body, L => (Stmt.within_layout body L).close
  | .forLoop (some initial) _ none body, L =>
    ((Stmt.within_layout initial L).trans (Stmt.within_layout body _)).close
  | .forLoop (some initial) _ (some _) body, L =>
    ((Stmt.within_layout initial L).trans (Stmt.within_layout body _)).close
  | .expression _, L => .refl L
  | .print _, L => .refl L
  | .function _ _ _, L => .refl L
  | .ret _ _, L => .refl L
  | .brk _, L => .refl L

theorem Stmt.within_listLayout : ∀ (ss : List Stmt) (L : Layout), L.Within (Stmt.listLayout ss L)
  | [], L => .refl L
  | st :: ss, L => (Stmt.within_layout st L).trans (Stmt.within_listLayout ss _)

theorem Stmt.within_optionalLayout : ∀ (st : Option Stmt) (L : Layout),
    L.Within (Stmt.optionalLayout st L)
  | none, L => .refl L
  | some st, L => Stmt.within_layout st L

end

mutual

/-- A statement that is no declaration leaves the same variables visible. -/
theorem Stmt.visible_layout : ∀ (st : Stmt) (L : Layout), st.braced = true → st.isDeclaration = false →
    (st.layout L).visible = L.visible
  | .declare _ _, _, _, plain => by cases plain
  | .block _, _, _, _ => rfl
  | .ifElse _ yes no, L, braced, _ => by
    simp only [Stmt.braced, Bool.and_eq_true, Bool.not_eq_true'] at braced
    rw [Stmt.layout, Stmt.visible_optionalLayout no _ braced.2,
      Stmt.visible_layout yes L braced.1.2 braced.1.1]
  | .whileLoop _ body, L, braced, _ => by
    simp only [Stmt.braced, Bool.and_eq_true, Bool.not_eq_true'] at braced
    exact Stmt.visible_layout body L braced.2 braced.1
  | .forLoop none _ none body, L, braced, _ => by
    simp only [Stmt.braced, Bool.and_eq_true, Bool.not_eq_true'] at braced
    exact Stmt.visible_layout body L braced.2 braced.1
  | .forLoop none _ (some _) _, _, _, _ => rfl
  | .forLoop (some _) _ none _, _, _, _ => rfl
  | .forLoop (some _) _ (some _) _, _, _, _ => rfl
  | .expression _, _, _, _ => rfl
  | .print _, _, _, _ => rfl
  | .function _ _ _, _, _, _ => rfl
  | .ret _ _, _, _, _ => rfl
  | .brk _, _, _, _ => rfl

theorem Stmt.visible_optionalLayout : ∀ (st : Option Stmt) (L : Layout), Stmt.branchBraced st = true →
    (Stmt.optionalLayout st L).visible = L.visible
  | none, _, _ => rfl
  | some st, L, braced => by
    simp only [Stmt.branchBraced, Bool.and_eq_true, Bool.not_eq_true'] at braced
    exact Stmt.visible_layout st L braced.2 braced.1

end

/-! ## Bindings of visible variables -/

namespace Env

/-- A binding shows a variable: it has its name and its value. -/
def ShowsVar (σ : State R A) (var : String × Nat) (binding : String × Val R A) : Prop :=
  binding.1 = var.1 ∧ σ.store var.2 = some binding.2

/-- The bindings show the visible variables, and the calls are the same. -/
structure Shows (ε : Env R A) (visible : List (String × Nat)) (σ : State R A) : Prop where
  bindings : List.Forall₂ (ShowsVar σ) visible ε.bindings
  trace : ε.trace = σ.trace

variable {ε : Env R A} {visible : List (String × Nat)} {bindings : List (String × Val R A)}
variable {σ : State R A}

theorem lookup_of_showsVar (same : List.Forall₂ (ShowsVar σ) visible bindings) (name : String) :
    bindings.lookup name = (visible.lookup name).bind σ.store := by
  induction same with
  | nil => rfl
  | @cons var binding visible bindings head _ ih =>
    obtain ⟨x, k⟩ := var
    obtain ⟨y, v⟩ := binding
    obtain ⟨rfl, value⟩ : y = x ∧ σ.store k = some v := head
    rw [List.lookup_cons, List.lookup_cons]
    split
    · exact value.symm
    · exact ih

/-- A value for a variable that is not visible. -/
theorem showsVar_assign_of_fresh {k : Nat} (v : Val R A) (fresh : ∀ j ∈ visible.map Prod.snd, j ≠ k)
    (same : List.Forall₂ (ShowsVar σ) visible bindings) :
    List.Forall₂ (ShowsVar (σ.assign k v)) visible bindings := by
  induction same with
  | nil => exact .nil
  | @cons var binding visible bindings head _ ih =>
    have other : var.2 ≠ k := fresh _ List.mem_cons_self
    refine .cons ⟨head.1, (if_neg other).trans head.2⟩ (ih fun j member => ?_)
    exact fresh j (List.mem_cons_of_mem _ member)

theorem rebind_of_lookup_eq_none {name : String} (v : Val R A)
    (same : List.Forall₂ (ShowsVar σ) visible bindings) (absent : visible.lookup name = none) :
    rebind name v bindings = none := by
  induction same with
  | nil => rfl
  | @cons var binding visible bindings head _ ih =>
    rw [List.lookup_cons] at absent
    split at absent
    · cases absent
    · rename_i other
      rw [rebind, if_neg (by simpa [head.1] using other), ih absent]
      rfl

/-- The innermost binding of a name is that of the variable that the name stands for. -/
theorem rebind_of_lookup {name : String} {k : Nat} (v : Val R A)
    (same : List.Forall₂ (ShowsVar σ) visible bindings)
    (distinct : (visible.map Prod.snd).Pairwise (· > ·)) (found : visible.lookup name = some k) :
    ∃ bindings', rebind name v bindings = some bindings' ∧
      List.Forall₂ (ShowsVar (σ.assign k v)) visible bindings' := by
  induction same with
  | nil => cases found
  | @cons var binding visible bindings head rest ih =>
    obtain ⟨outer, distinct⟩ := List.pairwise_cons.mp distinct
    rw [List.lookup_cons] at found
    split at found
    · rename_i here
      cases found
      refine ⟨_, if_pos (by simpa [head.1] using here), .cons ⟨head.1, if_pos rfl⟩ ?_⟩
      exact showsVar_assign_of_fresh v (fun j member => Nat.ne_of_lt (outer j member)) rest
    · rename_i other
      obtain ⟨bindings', done, shows⟩ := ih distinct found
      -- the variable is one of the outer ones, so that the head keeps its value
      obtain ⟨_, _, rfl, _⟩ := List.lookup_eq_some_iff.mp found
      have later : k < var.2 := outer k (by simp)
      refine ⟨binding :: bindings', ?_, .cons ⟨head.1, (if_neg (Nat.ne_of_gt later)).trans head.2⟩ shows⟩
      rw [rebind, if_neg (by simpa [head.1] using other), done]
      rfl

namespace Shows

variable {L : Layout}

theorem bind (shows : ε.Shows L.visible σ) (ordered : L.Ordered) (name : String) (v : Val R A) :
    (ε.bind name v).Shows (L.declare name).visible (σ.assign L.next v) where
  bindings := by
    refine .cons ⟨rfl, if_pos rfl⟩ (showsVar_assign_of_fresh v (fun j member => ?_) shows.bindings)
    exact Nat.ne_of_lt (List.rel_of_pairwise_cons ordered member)
  trace := shows.trace

/-- Behind a block, the outer variables are shown with the values that they have by then. -/
theorem leave {outer : Env R A} {σ₀ : State R A} {inner : List (String × Nat)}
    (shows₀ : outer.Shows visible σ₀) (shows : ε.Shows inner σ) (within : visible <:+ inner) :
    (ε.leave outer).Shows visible σ where
  bindings := by
    have dropped := List.forall₂_drop (inner.length - visible.length) shows.bindings
    rw [← List.suffix_iff_eq_drop.mp within, shows.bindings.length_eq, shows₀.bindings.length_eq]
      at dropped
    exact dropped
  trace := shows.trace

end Shows

end Env

/-! ## Expressions -/

namespace Env

/-- Both computations give the same value, and the environment behind the one shows the state behind the
    other; or neither gives one. -/
structure Agrees {α : Type} (visible : List (String × Nat)) (a : Option (α × State R A))
    (b : Option (α × Env R A)) : Prop where
  forth : ∀ {x σ}, a = some (x, σ) → ∃ ε, b = some (x, ε) ∧ ε.Shows visible σ
  back : ∀ {x ε}, b = some (x, ε) → ∃ σ, a = some (x, σ) ∧ ε.Shows visible σ

namespace Agrees

variable {α β : Type} {visible : List (String × Nat)} {σ : State R A} {ε : Env R A}

theorem of_shows (shows : ε.Shows visible σ) (x : α) : Agrees visible (some (x, σ)) (some (x, ε)) where
  forth same := by
    cases same
    exact ⟨ε, rfl, shows⟩
  back same := by
    cases same
    exact ⟨σ, rfl, shows⟩

theorem bind {a : Option (α × State R A)} {b : Option (α × Env R A)}
    {f : α × State R A → Option (β × State R A)} {g : α × Env R A → Option (β × Env R A)}
    (first : Agrees visible a b)
    (next : ∀ x σ ε, ε.Shows visible σ → Agrees visible (f (x, σ)) (g (x, ε))) :
    Agrees visible (a >>= f) (b >>= g) where
  forth same := by
    obtain ⟨⟨x, σ⟩, run, rest⟩ := Option.bind_eq_some_iff.mp same
    obtain ⟨ε, run', shows⟩ := first.forth run
    obtain ⟨ε', rest', shows'⟩ := (next x σ ε shows).forth rest
    exact ⟨ε', Option.bind_eq_some_iff.mpr ⟨_, run', rest'⟩, shows'⟩
  back same := by
    obtain ⟨⟨x, ε⟩, run, rest⟩ := Option.bind_eq_some_iff.mp same
    obtain ⟨σ, run', shows⟩ := first.back run
    obtain ⟨σ', rest', shows'⟩ := (next x σ ε shows).back rest
    exact ⟨σ', Option.bind_eq_some_iff.mpr ⟨_, run', rest'⟩, shows'⟩

/-- A value that does not depend on variables. -/
theorem of_value (shows : ε.Shows visible σ) (value : Option α) :
    Agrees visible (value >>= fun x => pure (x, σ)) (value >>= fun x => pure (x, ε)) := by
  cases value with
  | none => exact ⟨fun none => (by cases none), fun none => (by cases none)⟩
  | some x => exact of_shows shows x

theorem call (shows : ε.Shows visible σ) (event : Event R A) :
    Agrees visible (σ.call I event) (ε.call I event) := by
  rw [State.call, Env.call, shows.trace]
  cases I.call σ.trace event with
  | none => exact ⟨fun none => (by cases none), fun none => (by cases none)⟩
  | some r =>
    have called : ({ ε with trace := σ.trace ++ [event] } : Env R A).Shows visible
      { σ with trace := σ.trace ++ [event] } := ⟨shows.bindings, rfl⟩
    exact of_shows called (Val.i32 r)

theorem assign {L : Layout} (shows : ε.Shows L.visible σ) (ordered : L.Ordered) (name : String)
    (v : Val R A) :
    Agrees L.visible (L.lookup name >>= fun k => pure (v, σ.assign k v))
      (ε.assign name v >>= fun ε => pure (v, ε)) := by
  rw [Layout.lookup, Env.assign]
  cases found : L.visible.lookup name with
  | none =>
    rw [rebind_of_lookup_eq_none v shows.bindings found]
    exact ⟨fun none => (by cases none), fun none => (by cases none)⟩
  | some k =>
    obtain ⟨bindings, done, same⟩ :=
      rebind_of_lookup v shows.bindings (List.pairwise_cons.mp ordered).2 found
    have assigned : ({ ε with bindings := bindings } : Env R A).Shows L.visible (σ.assign k v) :=
      ⟨same, shows.trace⟩
    rw [done]
    exact of_shows assigned v

end Agrees

end Env

mutual

theorem Expr.eval_agrees {L : Layout} (ordered : L.Ordered) : ∀ (e : Expr) {σ : State R A} {ε : Env R A},
    ε.Shows L.visible σ → Env.Agrees L.visible (e.eval I L σ) (e.evalIn I ε)
  | .binary left op right, _, _, shows => by
    rw [Expr.eval, Expr.evalIn]
    apply (Expr.eval_agrees ordered left shows).bind
    intro x σ ε shows
    apply (Expr.eval_agrees ordered right shows).bind
    intro y σ ε shows
    exact .of_value shows (Val.binary I op x y)
  | .unary op operand, _, _, shows => by
    rw [Expr.eval, Expr.evalIn]
    apply (Expr.eval_agrees ordered operand shows).bind
    intro x σ ε shows
    exact .of_value shows (Val.unary I op x)
  | .literal value, _, _, shows => by
    rw [Expr.eval, Expr.evalIn]
    exact .of_value shows (Val.ofLiteral I value)
  | .name var, σ, ε, shows => by
    rw [Expr.eval, Expr.evalIn, Env.lookup, Env.lookup_of_showsVar shows.bindings, Layout.lookup]
    cases L.visible.lookup var.text with
    | none => exact .of_value shows none
    | some k => exact .of_value shows (σ.store k)
  | .assign target value, _, _, shows => by
    rw [Expr.eval, Expr.evalIn]
    apply (Expr.eval_agrees ordered value shows).bind
    intro x σ ε shows
    exact .assign shows ordered target.text x
  | .call callee arguments, _, _, shows => by
    rw [Expr.eval, Expr.evalIn]
    apply (Expr.evalAll_agrees ordered arguments shows).bind
    intro xs σ ε shows
    exact .call I shows ⟨callee.text, xs⟩
  | .group inner, _, _, shows => by
    rw [Expr.eval, Expr.evalIn]
    exact Expr.eval_agrees ordered inner shows

theorem Expr.evalAll_agrees {L : Layout} (ordered : L.Ordered) :
    ∀ (es : List Expr) {σ : State R A} {ε : Env R A},
      ε.Shows L.visible σ → Env.Agrees L.visible (Expr.evalAll I L es σ) (Expr.evalAllIn I es ε)
  | [], _, _, shows => by
    rw [Expr.evalAll, Expr.evalAllIn]
    exact .of_shows shows []
  | e :: es, _, _, shows => by
    rw [Expr.evalAll, Expr.evalAllIn]
    apply (Expr.eval_agrees ordered e shows).bind
    intro x σ ε shows
    apply (Expr.evalAll_agrees ordered es shows).bind
    intro xs σ ε shows
    exact .of_shows shows (x :: xs)

end

theorem Expr.holds_agrees {L : Layout} (ordered : L.Ordered) (e : Expr) {σ : State R A} {ε : Env R A}
    (shows : ε.Shows L.visible σ) : Env.Agrees L.visible (e.holds I L σ) (e.holdsIn I ε) := by
  rw [Expr.holds, Expr.holdsIn]
  apply (Expr.eval_agrees I ordered e shows).bind
  intro x σ ε shows
  exact .of_value shows (x.truth I)

/-! ## Statements -/

namespace Env

/-- Two ways to end are the same: normally, with an environment that shows the state, or by a return. -/
inductive Completion.Shows (visible : List (String × Nat)) :
    Completion R A → ImpCompiler.Completion R A → Prop
  | normal {ε : Env R A} {σ : State R A} (shows : ε.Shows visible σ) :
      Completion.Shows visible (.normal ε) (.normal σ)
  | returned (t : List (Event R A)) (v : Val R A) :
      Completion.Shows visible (.returned t v) (.returned t v)

/-- The behaviours are the same: `before` is visible in front of the statement and `after` behind it. -/
structure Mirrors (before after : List (String × Nat)) (numbered : ImpCompiler.Behaviour R A)
    (bound : Behaviour R A) : Prop where
  forth : ∀ {σ ε o}, ε.Shows before σ → numbered σ o → ∃ o', bound ε o' ∧ o'.Shows after o
  back : ∀ {σ ε o'}, ε.Shows before σ → bound ε o' → ∃ o, numbered σ o ∧ o'.Shows after o

namespace Mirrors

variable {V W U : List (String × Nat)} {b c : ImpCompiler.Behaviour R A} {b' c' : Behaviour R A}

theorem forth_normal (mirrors : Mirrors V W b b') {σ σ' : State R A} {ε : Env R A} (shows : ε.Shows V σ)
    (run : b σ (.normal σ')) : ∃ ε', b' ε (.normal ε') ∧ ε'.Shows W σ' := by
  obtain ⟨o', run', same⟩ := mirrors.forth shows run
  cases same with
  | normal shows' => exact ⟨_, run', shows'⟩

theorem forth_returned (mirrors : Mirrors V W b b') {σ : State R A} {ε : Env R A} (shows : ε.Shows V σ)
    {t : List (Event R A)} {v : Val R A} (run : b σ (.returned t v)) : b' ε (.returned t v) := by
  obtain ⟨o', run', same⟩ := mirrors.forth shows run
  cases same with
  | returned => exact run'

theorem back_normal (mirrors : Mirrors V W b b') {σ : State R A} {ε ε' : Env R A} (shows : ε.Shows V σ)
    (run : b' ε (.normal ε')) : ∃ σ', b σ (.normal σ') ∧ ε'.Shows W σ' := by
  obtain ⟨o, run', same⟩ := mirrors.back shows run
  cases same with
  | normal shows' => exact ⟨_, run', shows'⟩

theorem back_returned (mirrors : Mirrors V W b b') {σ : State R A} {ε : Env R A} (shows : ε.Shows V σ)
    {t : List (Event R A)} {v : Val R A} (run : b' ε (.returned t v)) : b σ (.returned t v) := by
  obtain ⟨o, run', same⟩ := mirrors.back shows run
  cases same with
  | returned => exact run'

theorem skip (V : List (String × Nat)) :
    Mirrors (R := R) (A := A) V V ImpCompiler.Behaviour.skip Behaviour.skip where
  forth shows done := ⟨_, rfl, done ▸ .normal shows⟩
  back shows done := ⟨_, rfl, done ▸ .normal shows⟩

/-- What a computation makes of the variables. -/
theorem of_agrees {α : Type} {f : State R A → Option (α × State R A)} {g : Env R A → Option (α × Env R A)}
    {change : α → State R A → State R A} {change' : α → Env R A → Env R A}
    (agrees : ∀ {σ ε}, ε.Shows V σ → Agrees V (f σ) (g ε))
    (changes : ∀ x {σ ε}, ε.Shows V σ → (change' x ε).Shows W (change x σ)) :
    Mirrors V W (fun σ o => ∃ x σ', f σ = some (x, σ') ∧ o = .normal (change x σ'))
      (fun ε o => ∃ x ε', g ε = some (x, ε') ∧ o = .normal (change' x ε')) where
  forth shows done := by
    obtain ⟨x, σ', run, rfl⟩ := done
    obtain ⟨ε', run', shows'⟩ := (agrees shows).forth run
    exact ⟨_, ⟨x, ε', run', rfl⟩, .normal (changes x shows')⟩
  back shows done := by
    obtain ⟨x, ε', run, rfl⟩ := done
    obtain ⟨σ', run', shows'⟩ := (agrees shows).back run
    exact ⟨_, ⟨x, σ', run', rfl⟩, .normal (changes x shows')⟩

section

variable {f : State R A → Option (Val R A × State R A)} {g : Env R A → Option (Val R A × Env R A)}

theorem print (agrees : ∀ {σ ε}, ε.Shows V σ → Agrees V (f σ) (g ε)) :
    Mirrors V V
      (fun σ o => ∃ x σ₁ r σ₂, f σ = some (x, σ₁) ∧ σ₁.call I x.printing = some (r, σ₂) ∧ o = .normal σ₂)
      (fun ε o => ∃ x ε₁ r ε₂, g ε = some (x, ε₁) ∧ ε₁.call I x.printing = some (r, ε₂) ∧
        o = .normal ε₂) where
  forth shows done := by
    obtain ⟨x, σ₁, r, σ₂, run, called, rfl⟩ := done
    obtain ⟨ε₁, run', shows₁⟩ := (agrees shows).forth run
    obtain ⟨ε₂, called', shows₂⟩ := (Agrees.call I shows₁ x.printing).forth called
    exact ⟨_, ⟨x, ε₁, r, ε₂, run', called', rfl⟩, .normal shows₂⟩
  back shows done := by
    obtain ⟨x, ε₁, r, ε₂, run, called, rfl⟩ := done
    obtain ⟨σ₁, run', shows₁⟩ := (agrees shows).back run
    obtain ⟨σ₂, called', shows₂⟩ := (Agrees.call I shows₁ x.printing).back called
    exact ⟨_, ⟨x, σ₁, r, σ₂, run', called', rfl⟩, .normal shows₂⟩

theorem ret (agrees : ∀ {σ ε}, ε.Shows V σ → Agrees V (f σ) (g ε)) :
    Mirrors V V (fun σ o => ∃ x σ', f σ = some (x, σ') ∧ o = .returned σ'.trace x)
      (fun ε o => ∃ x ε', g ε = some (x, ε') ∧ o = .returned ε'.trace x) where
  forth shows done := by
    obtain ⟨x, σ', run, rfl⟩ := done
    obtain ⟨ε', run', shows'⟩ := (agrees shows).forth run
    exact ⟨_, ⟨x, ε', run', rfl⟩, shows'.trace ▸ .returned ..⟩
  back shows done := by
    obtain ⟨x, ε', run, rfl⟩ := done
    obtain ⟨σ', run', shows'⟩ := (agrees shows).back run
    exact ⟨_, ⟨x, σ', run', rfl⟩, shows'.trace ▸ .returned ..⟩

end

theorem andThen (first : Mirrors V W b b') (second : Mirrors W U c c') :
    Mirrors V U (b.andThen c) (b'.andThen c') where
  forth shows done := by
    rcases done with ⟨σ₁, run, rest⟩ | ⟨t, v, rfl, run⟩
    · obtain ⟨ε₁, run', shows₁⟩ := first.forth_normal shows run
      obtain ⟨o', rest', same⟩ := second.forth shows₁ rest
      exact ⟨o', .inl ⟨ε₁, run', rest'⟩, same⟩
    · exact ⟨_, .inr ⟨t, v, rfl, first.forth_returned shows run⟩, .returned t v⟩
  back shows done := by
    rcases done with ⟨ε₁, run, rest⟩ | ⟨t, v, rfl, run⟩
    · obtain ⟨σ₁, run', shows₁⟩ := first.back_normal shows run
      obtain ⟨o, rest', same⟩ := second.back shows₁ rest
      exact ⟨o, .inl ⟨σ₁, run', rest'⟩, same⟩
    · exact ⟨_, .inr ⟨t, v, rfl, first.back_returned shows run⟩, .returned t v⟩

section

variable {test : State R A → Option (Bool × State R A)} {test' : Env R A → Option (Bool × Env R A)}

theorem branch (tests : ∀ {σ ε}, ε.Shows V σ → Agrees V (test σ) (test' ε))
    (yes : Mirrors V W b b') (no : Mirrors V W c c') :
    Mirrors V W (fun σ o => ∃ x σ', test σ = some (x, σ') ∧ if x then b σ' o else c σ' o)
      (fun ε o => ∃ x ε', test' ε = some (x, ε') ∧ if x then b' ε' o else c' ε' o) where
  forth shows done := by
    obtain ⟨x, σ₁, run, rest⟩ := done
    obtain ⟨ε₁, run', shows₁⟩ := (tests shows).forth run
    cases x with
    | true =>
      obtain ⟨o', rest', same⟩ := yes.forth shows₁ rest
      exact ⟨o', ⟨true, ε₁, run', rest'⟩, same⟩
    | false =>
      obtain ⟨o', rest', same⟩ := no.forth shows₁ rest
      exact ⟨o', ⟨false, ε₁, run', rest'⟩, same⟩
  back shows done := by
    obtain ⟨x, ε₁, run, rest⟩ := done
    obtain ⟨σ₁, run', shows₁⟩ := (tests shows).back run
    cases x with
    | true =>
      obtain ⟨o, rest', same⟩ := yes.back shows₁ rest
      exact ⟨o, ⟨true, σ₁, run', rest'⟩, same⟩
    | false =>
      obtain ⟨o, rest', same⟩ := no.back shows₁ rest
      exact ⟨o, ⟨false, σ₁, run', rest'⟩, same⟩

/-- A loop whose body leaves the same variables visible, by induction on the rounds. -/
theorem loop (tests : ∀ {σ ε}, ε.Shows V σ → Agrees V (test σ) (test' ε)) (body : Mirrors V V b b') :
    Mirrors V V (.loop test b) (.loop test' b') where
  forth {σ ε o} shows done := by
    induction done generalizing ε with
    | stop ends =>
      obtain ⟨ε', ends', shows'⟩ := (tests shows).forth ends
      exact ⟨_, .stop ends', .normal shows'⟩
    | again holds round _ ih =>
      obtain ⟨ε₁, holds', shows₁⟩ := (tests shows).forth holds
      obtain ⟨ε₂, round', shows₂⟩ := body.forth_normal shows₁ round
      obtain ⟨o', rest', same⟩ := ih shows₂
      exact ⟨o', .again holds' round' rest', same⟩
    | leave holds round =>
      obtain ⟨ε₁, holds', shows₁⟩ := (tests shows).forth holds
      exact ⟨_, .leave holds' (body.forth_returned shows₁ round), .returned ..⟩
  back {σ ε o'} shows done := by
    induction done generalizing σ with
    | stop ends =>
      obtain ⟨σ', ends', shows'⟩ := (tests shows).back ends
      exact ⟨_, .stop ends', .normal shows'⟩
    | again holds round _ ih =>
      obtain ⟨σ₁, holds', shows₁⟩ := (tests shows).back holds
      obtain ⟨σ₂, round', shows₂⟩ := body.back_normal shows₁ round
      obtain ⟨o, rest', same⟩ := ih shows₂
      exact ⟨o, .again holds' round' rest', same⟩
    | leave holds round =>
      obtain ⟨σ₁, holds', shows₁⟩ := (tests shows).back holds
      exact ⟨_, .leave holds' (body.back_returned shows₁ round), .returned ..⟩

end

/-- Where a scope ends, the numbered variables need no step: those of the scope are just not visible. -/
theorem enclosed (body : Mirrors V W b b') (within : V <:+ W) : Mirrors V V b b'.enclosed where
  forth shows done := by
    obtain ⟨_, done', same⟩ := body.forth shows done
    cases same with
    | normal shows' => exact ⟨_, .inl ⟨_, done', rfl⟩, .normal (shows.leave shows' within)⟩
    | returned t v => exact ⟨_, .inr ⟨t, v, rfl, done'⟩, .returned t v⟩
  back shows done := by
    rcases done with ⟨ε₁, run, rfl⟩ | ⟨t, v, rfl, run⟩
    · obtain ⟨σ₁, run', shows'⟩ := body.back_normal shows run
      exact ⟨_, run', .normal (shows.leave shows' within)⟩
    · exact ⟨_, body.back_returned shows run, .returned t v⟩

end Mirrors

end Env

theorem Stmt.braced_of_branchBraced {st : Option Stmt} (braced : Stmt.branchBraced st = true) :
    ∀ s, st = some s → s.braced = true := by
  rintro s rfl
  simp only [Stmt.branchBraced, Bool.and_eq_true] at braced
  exact braced.2

theorem Stmt.braced_forLoop {initial : Option Stmt} {test step : Option Expr} {body : Stmt} :
    (Stmt.forLoop initial test step body).braced = true ↔
      (∀ s, initial = some s → s.braced = true) ∧ body.isDeclaration = false ∧ body.braced = true := by
  cases initial <;> simp [Stmt.braced, and_assoc]

/-- A counting loop is a scope of its own, which its first statement may declare a variable in. -/
theorem Stmt.forLoop_mirrors {initial : Option Stmt} (test step : Option Expr) {body : Stmt} {L : Layout}
    (ordered : (Stmt.optionalLayout initial L).Ordered)
    (first : Env.Mirrors L.visible (Stmt.optionalLayout initial L).visible (Stmt.ExecOptional I initial L)
      (Stmt.ExecOptionalIn I initial (R := R) (A := A)))
    (round : Env.Mirrors (Stmt.optionalLayout initial L).visible
      (body.layout (Stmt.optionalLayout initial L)).visible (body.Exec I (Stmt.optionalLayout initial L))
      (body.ExecIn I))
    (same : (body.layout (Stmt.optionalLayout initial L)).visible =
      (Stmt.optionalLayout initial L).visible) :
    Env.Mirrors L.visible L.visible ((Stmt.forLoop initial test step body).Exec I L)
      ((Stmt.forLoop initial test step body).ExecIn I) := by
  have within := (Stmt.within_optionalLayout initial L).visible
  have tests := fun {σ : State R A} {ε : Env R A} (shows : ε.Shows _ σ) =>
    (test.getD Stmt.always).holds_agrees I ordered shows
  cases step with
  | none =>
    rw [same] at round
    exact (first.andThen (.loop tests (round.andThen (.skip _)))).enclosed within
  | some step =>
    have behind : Env.Mirrors (body.layout (Stmt.optionalLayout initial L)).visible
        (Stmt.optionalLayout initial L).visible
        (Behaviour.effect I (body.layout (Stmt.optionalLayout initial L)) step)
        (Env.Behaviour.effect I step) := by
      rw [← same]
      exact .of_agrees (fun shows => step.eval_agrees I ((Stmt.within_layout body _).ordered ordered) shows)
        fun _ _ _ shows => shows
    exact (first.andThen (.loop tests (round.andThen behind))).enclosed within

mutual

/-- Each statement does the same to bindings as to numbered variables. -/
theorem Stmt.exec_mirrors : ∀ (st : Stmt) {L : Layout}, st.braced = true → L.Ordered →
    Env.Mirrors L.visible (st.layout L).visible (st.Exec I L) (st.ExecIn I (R := R) (A := A))
  | .expression e, L, _, ordered =>
    .of_agrees (fun shows => e.eval_agrees I ordered shows) fun _ _ _ shows => shows
  | .print e, L, _, ordered => .print I fun shows => e.eval_agrees I ordered shows
  | .declare var none, L, _, ordered =>
    ⟨fun shows done => ⟨_, rfl, done ▸ .normal (shows.bind ordered var.text _)⟩,
      fun shows done => ⟨_, rfl, done ▸ .normal (shows.bind ordered var.text _)⟩⟩
  | .declare var (some e), L, _, ordered =>
    .of_agrees (fun shows => e.eval_agrees I ordered shows)
      fun x _ _ shows => shows.bind ordered var.text x
  | .block body, L, braced, ordered => by
    rw [Stmt.Exec, Stmt.ExecIn]
    exact (Stmt.execAll_mirrors body braced ordered).enclosed (Stmt.within_listLayout body L).visible
  | .ifElse test yes no, L, braced, ordered => by
    have same := Stmt.visible_layout (.ifElse test yes no) L braced rfl
    simp only [Stmt.braced, Bool.and_eq_true, Bool.not_eq_true'] at braced
    have first := Stmt.exec_mirrors yes braced.1.2 ordered
    have second := Stmt.execOptional_mirrors no (Stmt.braced_of_branchBraced braced.2)
      ((Stmt.within_layout yes L).ordered ordered)
    rw [Stmt.visible_layout yes L braced.1.2 braced.1.1] at first
    rw [Stmt.visible_optionalLayout no _ braced.2, Stmt.visible_layout yes L braced.1.2 braced.1.1] at second
    rw [same]
    exact .branch (fun shows => test.holds_agrees I ordered shows) first second
  | .whileLoop test body, L, braced, ordered => by
    have same := Stmt.visible_layout (.whileLoop test body) L braced rfl
    simp only [Stmt.braced, Bool.and_eq_true, Bool.not_eq_true'] at braced
    have round := Stmt.exec_mirrors body braced.2 ordered
    rw [Stmt.visible_layout body L braced.2 braced.1] at round
    rw [same, Stmt.Exec, Stmt.ExecIn]
    exact .loop (fun shows => test.holds_agrees I ordered shows) round
  | .forLoop initial test step body, L, braced, ordered => by
    have same := Stmt.visible_layout (.forLoop initial test step body) L braced rfl
    obtain ⟨bracedInitial, plain, bracedBody⟩ := Stmt.braced_forLoop.mp braced
    have inner := (Stmt.within_optionalLayout initial L).ordered ordered
    rw [same]
    exact Stmt.forLoop_mirrors I test step inner (Stmt.execOptional_mirrors initial bracedInitial ordered)
      (Stmt.exec_mirrors body bracedBody inner) (Stmt.visible_layout body _ bracedBody plain)
  | .function _ _ _, L, _, _ => .skip L.visible
  | .ret _ none, _, _, _ => ⟨fun _ done => done.elim, fun _ done => done.elim⟩
  | .ret _ (some e), L, _, ordered => .ret fun shows => e.eval_agrees I ordered shows
  | .brk _, L, _, _ => .skip L.visible

theorem Stmt.execAll_mirrors : ∀ (ss : List Stmt) {L : Layout}, Stmt.listBraced ss = true → L.Ordered →
      Env.Mirrors L.visible (Stmt.listLayout ss L).visible (Stmt.ExecAll I ss L)
        (Stmt.ExecAllIn I ss (R := R) (A := A))
  | [], L, _, _ => .skip L.visible
  | st :: ss, L, braced, ordered => by
    simp only [Stmt.listBraced, Bool.and_eq_true] at braced
    exact (Stmt.exec_mirrors st braced.1 ordered).andThen
      (Stmt.execAll_mirrors ss braced.2 ((Stmt.within_layout st L).ordered ordered))

theorem Stmt.execOptional_mirrors : ∀ (st : Option Stmt) {L : Layout},
    (∀ s, st = some s → s.braced = true) → L.Ordered →
      Env.Mirrors L.visible (Stmt.optionalLayout st L).visible (Stmt.ExecOptional I st L)
        (Stmt.ExecOptionalIn I st (R := R) (A := A))
  | none, L, _, _ => .skip L.visible
  | some st, _, braced, ordered => Stmt.exec_mirrors st (braced st rfl) ordered

end

/-! ## Functions -/

namespace Definition

/-- The parameters are bound in order, each to the argument with its number. -/
theorem shows_params (args : List (BitVec 32)) (params : List Token) {L : Layout} {ε : Env R A}
    (ordered : L.Ordered) (shows : ε.Shows L.visible (start args))
    (count : args.length = L.next + params.length) :
    (params.foldl (fun L param => L.declare param.text) L).Ordered ∧
      ((params.zip (args.drop L.next)).foldl (fun ε p => ε.bind p.1.text (.i32 p.2)) ε).Shows
        (params.foldl (fun L param => L.declare param.text) L).visible (start args) := by
  induction params generalizing L ε with
  | nil => exact ⟨ordered, shows⟩
  | cons param params ih =>
    rw [List.length_cons] at count
    have bound : L.next < args.length := by omega
    have bind : (ε.bind param.text (.i32 args[L.next])).Shows (L.declare param.text).visible
        (start args) := by
      refine ⟨.cons ⟨rfl, ?_⟩ shows.bindings, shows.trace⟩
      simp [start, bound]
    rw [List.drop_eq_getElem_cons bound]
    have rest : args.length = L.next + 1 + params.length := by omega
    exact ih (ordered.declare param.text) bind rest

/-- A function whose body is braced does the same with numbered variables as with bindings. -/
theorem runs_iff_runsIn {d : Definition} (braced : Stmt.listBraced d.body = true) {args : List (BitVec 32)}
    (count : args.length = d.params.length) (t : List (Event R A)) (r : Val R A) :
    d.Runs I args t r ↔ d.RunsIn I args t r := by
  have nothing : (⟨[], []⟩ : Env R A).Shows Layout.empty.visible (start args) := ⟨.nil, rfl⟩
  obtain ⟨ordered, shows⟩ := shows_params args d.params Layout.ordered_empty nothing
    (count.trans (Nat.zero_add _).symm)
  have mirrors := Stmt.execAll_mirrors I d.body braced ordered
  rw [Runs, RunsIn]
  constructor
  · rintro (returned | ⟨σ, normal, rfl, rfl⟩)
    · exact .inl (mirrors.forth_returned shows returned)
    · obtain ⟨ε, normal', shows'⟩ := mirrors.forth_normal shows normal
      exact .inr ⟨ε, normal', shows'.trace.symm, rfl⟩
  · rintro (returned | ⟨ε, normal, rfl, rfl⟩)
    · exact .inl (mirrors.back_returned shows returned)
    · obtain ⟨σ, normal', shows'⟩ := mirrors.back_normal shows normal
      exact .inr ⟨σ, normal', shows'.trace, rfl⟩

end Definition

/-- The functions of a program that is parsed do the same with numbered variables as with bindings that
    end with their blocks. -/
theorem runs_iff_runsIn_of_parseTokens {tokens : List Token} {statements : List Stmt}
    (parsed : parseTokens tokens = .ok statements) : ∀ d ∈ programFunctions statements,
      ∀ (args : List (BitVec 32)), args.length = d.params.length →
        ∀ (t : List (Event R A)) (r : Val R A), d.Runs I args t r ↔ d.RunsIn I args t r := by
  intro d member args count t r
  exact d.runs_iff_runsIn I (listBraced_programFunctions (parseTokens_braced parsed) d member) count t r

end ImpCompiler
