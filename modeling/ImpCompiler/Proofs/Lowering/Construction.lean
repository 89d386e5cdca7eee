import ImpCompiler.Proofs.Lowering.Actions
import ImpCompiler.Proofs.Tree.Names
import ImpCompiler.Proofs.Typing.Discipline

/-! # How lowering is put together

All that lowering does, it does through a few actions: it looks variables up and declares them, opens and
closes scopes and functions, adds blocks and goes to them, and writes to the module.  What holds of these,
and of one action behind another, therefore holds of the whole of lowering (`stmts_built`), and is proved
by an induction that does not look at the trees again.

`Lower.Built` has two actions, since some of what is to be proved compares two runs: the first is that of a
program, and the second that of the program with its variables renamed and its tokens moved.  A property of
one action is proved with nothing renamed and nothing moved, and does not look at the second.  The other
parameters say what the first action can be expected to do: which variables it declares in the scope around
it, which blocks it goes to, and which string constants it adds. -/

namespace ImpCompiler

open Ssa Typing

/-- The signature of a function. -/
def Ssa.Func.signature (f : Func) : Signature :=
  ⟨f.name, f.paramTypes, f.returnType, f.isDeclaration⟩

/-! ## Changes of a program -/

/-- The error at another position; what is wrong with a written module has none. -/
def LoweringError.move (π : Position → Position) : LoweringError → LoweringError
  | .undefinedVariable name p => .undefinedVariable name (π p)
  | .unknownFunction name p => .unknownFunction name (π p)
  | .typeMismatch op left right p => .typeMismatch op left right (π p)
  | .unsupportedOperator op ty p => .unsupportedOperator op ty (π p)
  | .unsupportedPrint ty p => .unsupportedPrint ty (π p)
  | .invalidCondition ty p => .invalidCondition ty (π p)
  | .invalidLiteral text p => .invalidLiteral text (π p)
  | .duplicateFunction name p => .duplicateFunction name (π p)
  | .argumentCount name expected found p => .argumentCount name expected found (π p)
  | .argumentType name index expected found p => .argumentType name index expected found (π p)
  | .voidValue name p => .voidValue name (π p)
  | .emit error => .emit error
  | .malformed error => .malformed error

theorem LoweringError.move_id (e : LoweringError) : e.move id = e := by
  cases e <;> rfl

/-- The error with the variable that it names renamed. -/
def LoweringError.rename (ρ : String → String) : LoweringError → LoweringError
  | .undefinedVariable name position => .undefinedVariable (ρ name) position
  | e => e

theorem LoweringError.rename_id (e : LoweringError) : e.rename id = e := by
  cases e <;> rfl

namespace Lower

/-- A change of programs that lowering follows: `vars` are the variables that the programs have, which get
    new names, and tokens get new positions. -/
structure Change where
  vars : String → Prop
  name : String → String
  position : Position → Position
  /-- A token that stands nowhere stays there. -/
  fixed : position .synthetic = .synthetic

namespace Change

/-- No change, of any program. -/
def none : Change := ⟨fun _ => True, id, id, rfl⟩

variable (δ : Change)

/-- The token of a variable. -/
abbrev var (t : Token) : Token :=
  (t.rename δ.name).move δ.position

abbrev expr (e : Expr) : Expr :=
  (e.rename δ.name).relabel (Token.move δ.position)

abbrev exprs (es : List Expr) : List Expr :=
  Expr.listRelabel (Token.move δ.position) (Expr.listRename δ.name es)

abbrev stmt (st : Stmt) : Stmt :=
  (st.rename δ.name).relabel (Token.move δ.position)

abbrev stmts (ss : List Stmt) : List Stmt :=
  Stmt.listRelabel (Token.move δ.position) (Stmt.listRename δ.name ss)

abbrev error (e : LoweringError) : LoweringError :=
  (e.rename δ.name).move δ.position

theorem length_exprs (es : List Expr) : (δ.exprs es).length = es.length := by
  rw [exprs, Expr.listRelabel_eq_map, List.length_map, Expr.length_listRename]

theorem position_expr (e : Expr) : (δ.expr e).position = δ.position e.position := by
  rw [expr, Expr.position_relabel, Expr.position_rename]

/-- The condition of a loop that names none has no variables, and stands nowhere. -/
theorem expr_always : δ.expr Stmt.always = Stmt.always := by
  rw [expr, Stmt.always, Expr.rename, Expr.relabel, Token.move, Token.synthetic, δ.fixed]

theorem getD_always (test : Option Expr) :
    ((test.map (Expr.rename δ.name)).map (Expr.relabel (Token.move δ.position))).getD Stmt.always =
      δ.expr (test.getD Stmt.always) := by
  cases test with
  | none => exact δ.expr_always.symm
  | some test => rfl

end Change

/-! ## The construction -/

/-- What lowering writes to the current function and asks of the module, and the same with the variables
    renamed: slots, and the values that are read from them, have the names of variables. -/
inductive Emits (δ : Change) : {α : Type} → Emit α → Emit α → Prop where
  | push (i : Instr) : Emits δ (Emitter.push i) (Emitter.push i)
  | pushResult (ty : Ty) (name : String) (make : Nat → Instr) :
      Emits δ (Emitter.pushResult ty name make) (Emitter.pushResult ty name make)
  | load (ty : Ty) (slot : Value) (name : String) :
      Emits δ (Emitter.load ty slot name) (Emitter.load ty slot (δ.name name))
  | alloca (ty : Ty) (name : String) :
      Emits δ (Emitter.alloca ty name) (Emitter.alloca ty (δ.name name))
  | terminate (t : Terminator) : Emits δ (Emitter.terminate t) (Emitter.terminate t)
  | param (index : Nat) : Emits δ (Emitter.param index) (Emitter.param index)
  | call (callee : Nat) (args : List Value) (name : String) :
      Emits δ (Emitter.call callee args name) (Emitter.call callee args name)
  | findFunction (name : String) : Emits δ (Emitter.findFunction name) (Emitter.findFunction name)
  | addFunction (name : String) (params : List Param) (returnType : Ty) :
      Emits δ (Emitter.addFunction name params returnType) (Emitter.addFunction name params returnType)

/-- Actions that lowering is put together from, for a program and for the program that is changed by `δ`.
    They go to no blocks but `blocks` and those that they add themselves, declare no variables but `names`
    in the scope around them, and add the string constants `texts`, if they do not fail. -/
inductive Built (δ : Change) : List Nat → (String → Prop) → List String → {α : Type} → Lower α → Lower α →
    Prop where
  | pure {blocks : List Nat} {names : String → Prop} {α : Type} (a : α) :
      Built δ blocks names [] (Pure.pure a) (Pure.pure a)
  | throw {blocks : List Nat} {names : String → Prop} {texts : List String} {α : Type} (e : LoweringError) :
      Built δ blocks names texts (MonadExcept.throw e : Lower α) (MonadExcept.throw (δ.error e))
  | bind {blocks : List Nat} {names : String → Prop} {texts texts' : List String} {α β : Type}
      {x y : Lower α} {next next' : α → Lower β} (first : Built δ blocks names texts x y)
      (rest : ∀ a, Built δ blocks names texts' (next a) (next' a)) :
      Built δ blocks names (texts ++ texts') (x >>= next) (y >>= next')
  | emit {blocks : List Nat} {names : String → Prop} {α : Type} {x y : Emit α} (emits : Emits δ x y) :
      Built δ blocks names [] (Lower.emit x) (Lower.emit y)
  | globalString {blocks : List Nat} {names : String → Prop} (text : String) :
      Built δ blocks names [text] (Lower.emit (Emitter.globalString text))
        (Lower.emit (Emitter.globalString text))
  /-- Of a function that is there, nothing is looked at but its signature. -/
  | signature {blocks : List Nat} {names : String → Prop} {texts : List String} {α : Type}
      {next next' : Signature → Lower α} (id : Nat)
      (rest : ∀ f, Built δ blocks names texts (next f) (next' f)) :
      Built δ blocks names texts (Lower.emit (Emitter.function id) >>= fun f => next f.signature)
        (Lower.emit (Emitter.function id) >>= fun f => next' f.signature)
  | lookup {blocks : List Nat} {names : String → Prop} {name : Token} (known : δ.vars name.text) :
      Built δ blocks names [] (Lower.lookup name) (Lower.lookup (δ.var name))
  | define {blocks : List Nat} {names : String → Prop} {name : String} (known : δ.vars name)
      (allowed : names name) (slot : Value) (ty : Ty) :
      Built δ blocks names [] (modifyScopes (·.define name slot ty))
        (modifyScopes (·.define (δ.name name) slot ty))
  /-- From then on the new block can be gone to. -/
  | appendBlock {blocks : List Nat} {names : String → Prop} {texts : List String} {α : Type}
      {next next' : Nat → Lower α} (label : String)
      (rest : ∀ block, Built δ (block :: blocks) names texts (next block) (next' block)) :
      Built δ blocks names texts (Lower.appendBlock label >>= next) (Lower.appendBlock label >>= next')
  | moveTo {blocks : List Nat} {names : String → Prop} {block : Nat} (known : block ∈ blocks) :
      Built δ blocks names [] (Lower.moveTo block) (Lower.moveTo block)
  | terminateIfOpen {blocks : List Nat} {names : String → Prop} (t : Terminator) :
      Built δ blocks names [] (Lower.terminateIfOpen (Emitter.terminate t))
        (Lower.terminateIfOpen (Emitter.terminate t))
  | withBlockScope {blocks : List Nat} {names inner : String → Prop} {texts : List String}
      {x y : Lower Unit} (body : Built δ blocks inner texts x y) :
      Built δ blocks names texts (Lower.withBlockScope x) (Lower.withBlockScope y)
  /-- The body of a function goes to no block of the function around it. -/
  | function {blocks : List Nat} {names inner : String → Prop} {texts : List String} {params : List Token}
      {x y : Lower Unit} (name : Token)
      (stored : Built δ [] inner [] (storeParams 0 params) (storeParams 0 (params.map δ.var)))
      (body : Built δ [] inner texts x y) :
      Built δ blocks names texts (Lower.function name params x)
        (Lower.function (name.move δ.position) (params.map δ.var) y)

variable {δ : Change} {blocks : List Nat} {names : String → Prop} {texts texts' texts'' : List String}

namespace Built

variable {α β : Type} {x y : Lower α} {next next' : α → Lower β}

/-- What comes first adds no string constant. -/
theorem behind (first : Built δ blocks names [] x y)
    (rest : ∀ a, Built δ blocks names texts (next a) (next' a)) :
    Built δ blocks names texts (x >>= next) (y >>= next') :=
  first.bind rest

/-- What comes last adds no string constant. -/
theorem before (first : Built δ blocks names texts x y)
    (rest : ∀ a, Built δ blocks names [] (next a) (next' a)) :
    Built δ blocks names texts (x >>= next) (y >>= next') := by
  have both := first.bind rest
  rwa [List.append_nil] at both

end Built

/-! ## Expressions -/

theorem literal_built (t : Token) :
    Built δ blocks names (Mention.texts (Expr.literal t).mentions) (literal t)
      (literal (t.move δ.position)) := by
  rw [Expr.mentions, literal, literal, Token.kind_move, Token.text_move, Token.position_move]
  cases t.kind with
  | intLiteral =>
    dsimp only
    cases int32OfText? t.text with
    | some value => exact .pure _
    | none => exact .throw _
  | floatLiteral =>
    dsimp only
    cases Binary64.ofText? t.text with
    | some bits => exact .pure _
    | none => exact .throw _
  | boolLiteral =>
    rw [if_neg (by decide)]
    dsimp only
    split
    · exact .pure _
    · exact .pure _
    · exact .throw _
  | stringLiteral => exact .globalString t.text
  | _ => exact .throw _

theorem binary_built (op : Token) (left right : Value) :
    Built δ blocks names [] (binary op left right) (binary (op.move δ.position) left right) := by
  simp only [binary, Token.kind_move, Token.text_move, Token.position_move]
  split
  · exact .throw _
  split
  · split
    · exact .emit (.pushResult _ _ _)
    · exact .throw _
  · split
    · split
      · exact .emit (.pushResult _ _ _)
      · exact .throw _
    split
    · split
      · exact .emit (.pushResult _ _ _)
      · exact .throw _
    · exact .throw _
  · exact .throw _

theorem unary_built (op : Token) (operand : Value) :
    Built δ blocks names [] (unary op operand) (unary (op.move δ.position) operand) := by
  simp only [unary, Token.text_move, Token.position_move]
  split
  · split
    · exact .emit (.pushResult _ _ _)
    split
    · exact .emit (.pushResult _ _ _)
    · exact .throw _
  · split
    · exact .emit (.pushResult _ _ _)
    · exact .throw _
  · exact .throw _

theorem test_built (value : Value) (position : Position) :
    Built δ blocks names [] (test value position) (test value (δ.position position)) := by
  simp only [test]
  split
  · exact .pure value
  · exact .emit (.pushResult _ _ _)
  · exact .emit (.pushResult _ _ _)
  · exact .throw _

theorem assign_built {target : Token} (known : δ.vars target.text) (value : Value) :
    Built δ blocks names [] (assign target value) (assign (δ.var target) value) := by
  refine (Built.lookup known).behind fun binding => ?_
  split
  · exact .throw _
  · exact (Built.emit (.push _)).behind fun _ => .pure value

/-- The arguments are lowered if there are as many as there are parameters. -/
theorem call_built (callee : Token) (count : Nat) {arguments arguments' : List Ty → Lower (List Value)}
    (passed : ∀ types, types.length = count →
      Built δ blocks names texts (arguments types) (arguments' types)) :
    Built δ blocks names texts (call callee count arguments)
      (call (callee.move δ.position) count arguments') := by
  refine (Built.emit (.findFunction callee.text)).behind fun found => ?_
  cases found with
  | none => exact .throw _
  | some id =>
    have rest : ∀ f : Signature, Built δ blocks names texts
        (if f.params.length ≠ count then
          throw (.argumentCount callee.text f.params.length count callee.position)
        else do
          let args ← arguments f.params
          emit (Emitter.call id args "calltmp"))
        (if f.params.length ≠ count then
          throw (.argumentCount callee.text f.params.length count (δ.position callee.position))
        else do
          let args ← arguments' f.params
          emit (Emitter.call id args "calltmp")) := by
      intro f
      split
      · exact .throw _
      · rename_i length
        exact (passed f.params (Decidable.not_not.mp length)).before fun args =>
          .emit (.call id args "calltmp")
    exact .signature id rest

mutual

theorem expr_built : ∀ e : Expr, (∀ x ∈ e.vars, δ.vars x) →
    Built δ blocks names (Mention.texts e.mentions) (expr e) (expr (δ.expr e))
  | .binary left op right, known => by
    rw [Expr.vars, List.forall_mem_append] at known
    rw [Expr.mentions, Mention.texts_append, Change.expr, Expr.rename, Expr.relabel, expr, expr]
    exact (expr_built left known.1).bind fun l => (expr_built right known.2).before fun r =>
      binary_built op l r
  | .unary op operand, known => by
    rw [Expr.vars] at known
    rw [Expr.mentions, Change.expr, Expr.rename, Expr.relabel, expr, expr]
    exact (expr_built operand known).before fun value => unary_built op value
  | .literal value, _ => by
    rw [Change.expr, Expr.rename, Expr.relabel, expr, expr]
    exact literal_built value
  | .name var, known => by
    rw [Expr.vars, List.forall_mem_singleton] at known
    rw [Expr.mentions, Change.expr, Expr.rename, Expr.relabel, expr, expr]
    exact (Built.lookup known).behind fun binding => .emit (.load .i32 binding.slot var.text)
  | .assign target value, known => by
    rw [Expr.vars, List.forall_mem_cons] at known
    rw [Expr.mentions, Change.expr, Expr.rename, Expr.relabel, expr, expr]
    exact (expr_built value known.2).before fun value => assign_built known.1 value
  | .call callee arguments, known => by
    rw [Expr.vars] at known
    rw [Expr.mentions, Change.expr, Expr.rename, Expr.relabel, expr, expr, Change.length_exprs]
    refine (call_built callee arguments.length fun types length =>
      args_built callee.text 0 arguments types known length.symm).before fun value? => ?_
    cases value? with
    | some value => exact .pure value
    | none => exact .throw _
  | .group inner, known => by
    rw [Expr.vars] at known
    rw [Expr.mentions, Change.expr, Expr.rename, Expr.relabel, expr, expr]
    exact expr_built inner known

theorem args_built (callee : String) (index : Nat) : ∀ (es : List Expr) (types : List Ty),
    (∀ x ∈ Expr.listVars es, δ.vars x) → es.length = types.length →
      Built δ blocks names (Mention.texts (Expr.listMentions es)) (args callee index es types)
        (args callee index (δ.exprs es) types)
  | [], types, _, _ => by
    rw [Expr.listMentions, Change.exprs, Expr.listRename, Expr.listRelabel, args]
    · exact .pure []
    · simp
  | e :: es, [], _, length => by cases length
  | e :: es, ty :: types, known, length => by
    rw [Expr.listVars, List.forall_mem_append] at known
    rw [Expr.listMentions, Mention.texts_append, Change.exprs, Expr.listRename,
      Expr.listRelabel, args, args, Change.position_expr]
    refine (expr_built e known.1).bind fun value => ?_
    split
    · exact .throw _
    · exact (args_built callee (index + 1) es types known.2 (Nat.succ.inj length)).before fun values =>
        .pure (value :: values)

end

theorem effect_built (e : Expr) (known : ∀ x ∈ e.vars, δ.vars x) :
    Built δ blocks names (Mention.texts e.mentions) (effect e) (effect (δ.expr e)) := by
  have value : Built δ blocks names (Mention.texts e.mentions) (do let _ ← expr e)
      (do let _ ← expr (δ.expr e)) :=
    (expr_built e known).before fun _ => .pure ()
  cases e with
  | call callee arguments =>
    rw [Expr.vars] at known
    rw [Expr.mentions, Change.expr, Expr.rename, Expr.relabel, effect, effect, Change.length_exprs]
    exact (call_built callee arguments.length fun types length =>
      args_built callee.text 0 arguments types known length.symm).before fun _ => .pure ()
  | _ => exact value

theorem condition_built (e : Expr) (known : ∀ x ∈ e.vars, δ.vars x) :
    Built δ blocks names (Mention.texts e.mentions) (condition e) (condition (δ.expr e)) := by
  rw [condition, condition, Change.position_expr]
  exact (expr_built e known).before fun value => test_built value e.position

/-! ## Statements -/

theorem printFunction_built (routine : PrintRoutine) (position : Position) :
    Built δ blocks names [] (printFunction routine position)
      (printFunction routine (δ.position position)) := by
  refine (Built.emit (.findFunction routine.name)).behind fun found => ?_
  cases found with
  | none => exact .emit (.addFunction _ _ _)
  | some id =>
    have rest : ∀ f : Signature, Built δ blocks names []
        (if f.isDeclaration ∧ f.returnType = .void ∧ f.params = [routine.param] then
          pure id
        else
          throw (.duplicateFunction routine.name position))
        (if f.isDeclaration ∧ f.returnType = .void ∧ f.params = [routine.param] then
          pure id
        else
          throw (.duplicateFunction routine.name (δ.position position))) := by
      intro f
      split
      · exact .pure id
      · exact .throw _
    exact .signature id rest

theorem printWith_built (routine : PrintRoutine) (argument : Value) (position : Position) :
    Built δ blocks names [] (printWith routine argument position)
      (printWith routine argument (δ.position position)) :=
  (printFunction_built routine position).behind fun id =>
    (Built.emit (.call id [argument] "")).behind fun _ => .pure ()

theorem print_built (value : Value) (position : Position) :
    Built δ blocks names [] (print value position) (print value (δ.position position)) := by
  simp only [print]
  split
  · exact printWith_built .text value position
  · exact printWith_built .integer value position
  · exact (Built.emit (.pushResult _ _ _)).behind fun widened => printWith_built .integer widened position
  · exact printWith_built .real value position
  · exact .throw _

theorem declare_built {var : Token} (known : δ.vars var.text) (allowed : names var.text) (value : Value) :
    Built δ blocks names [] (declare var value) (declare (δ.var var) value) :=
  (Built.emit (.alloca _ _)).behind fun slot => (Built.emit (.push _)).behind fun _ =>
    .define known allowed slot value.ty

theorem ifElse_built {test test' : Lower Value} {yes yes' no no' : Lower Unit}
    (tested : Built δ blocks names texts test test')
    (first : ∀ blocks, Built δ blocks names texts' yes yes')
    (second : ∀ blocks, Built δ blocks names texts'' no no') :
    Built δ blocks names (texts ++ (texts' ++ texts'')) (ifElse test yes no) (ifElse test' yes' no') := by
  refine tested.bind fun value => ?_
  refine .appendBlock _ fun yesBlock => .appendBlock _ fun noBlock => .appendBlock _ fun joinBlock => ?_
  refine (Built.emit (.terminate _)).behind fun _ => (Built.moveTo (by simp)).behind fun _ => ?_
  refine (first _).bind fun _ => (Built.terminateIfOpen _).behind fun _ => ?_
  refine (Built.moveTo (by simp)).behind fun _ => (second _).before fun _ => ?_
  exact (Built.terminateIfOpen _).behind fun _ => .moveTo (by simp)

theorem whileLoop_built {test test' : Lower Value} {body body' : Lower Unit}
    (tested : ∀ blocks, Built δ blocks names texts test test')
    (repeated : ∀ blocks, Built δ blocks names texts' body body') :
    Built δ blocks names (texts ++ texts') (whileLoop test body) (whileLoop test' body') := by
  refine .appendBlock _ fun conditionBlock => .appendBlock _ fun bodyBlock => ?_
  refine .appendBlock _ fun afterBlock => ?_
  refine (Built.terminateIfOpen _).behind fun _ => (Built.moveTo (by simp)).behind fun _ => ?_
  refine (tested _).bind fun value => (Built.emit (.terminate _)).behind fun _ => ?_
  refine (Built.moveTo (by simp)).behind fun _ => (repeated _).before fun _ => ?_
  exact (Built.terminateIfOpen _).behind fun _ => .moveTo (by simp)

theorem storeParams_built (index : Nat) (params : List Token)
    (known : ∀ x ∈ params.map Token.text, δ.vars x) :
    Built δ blocks (fun _ => True) [] (storeParams index params)
      (storeParams index (params.map δ.var)) := by
  induction params generalizing index with
  | nil => exact .pure ()
  | cons param params ih =>
    rw [List.map_cons, List.forall_mem_cons] at known
    refine (Built.emit (.param index)).behind fun value => (Built.emit (.alloca _ _)).behind fun slot => ?_
    refine (Built.emit (.push _)).behind fun _ => ?_
    exact (Built.define known.1 trivial slot .i32).behind fun _ => ih (index + 1) known.2

/-- The condition of a counting loop, which may be absent. -/
theorem loopTest_built (test : Option Expr) (known : ∀ x ∈ test.elim [] Expr.vars, δ.vars x) :
    Built δ blocks names (Mention.texts (Expr.optionalMentions test)) (condition (test.getD Stmt.always))
      (condition (((test.map (Expr.rename δ.name)).map (Expr.relabel (Token.move δ.position))).getD
        Stmt.always)) := by
  rw [Change.getD_always, ← Expr.mentions_getD_always]
  refine condition_built _ ?_
  cases test with
  | none => exact List.forall_mem_nil _
  | some test => exact known

/-- A round with a step has a scope of its own, in which the body may declare what it likes. -/
theorem roundOf_built {body : Stmt} (repeated : ∀ names : String → Prop, (∀ x ∈ body.openNames, names x) →
      Built δ blocks names texts (stmt body) (stmt (δ.stmt body)))
    (step : Option Expr) (known : ∀ x ∈ step.elim [] Expr.vars, δ.vars x)
    (allowed : step = none → ∀ x ∈ body.openNames, names x) :
    Built δ blocks names (texts ++ Mention.texts (Expr.optionalMentions step)) (roundOf body step)
      (roundOf (δ.stmt body)
        ((step.map (Expr.rename δ.name)).map (Expr.relabel (Token.move δ.position)))) := by
  cases step with
  | none => exact (List.append_nil texts).symm ▸ repeated names (allowed rfl)
  | some step =>
    have body := repeated (fun _ => True) fun _ _ => trivial
    exact .withBlockScope (body.bind fun _ => effect_built step known)

mutual

/-- A statement declares no variables but its open names in the scope around it. -/
theorem stmt_built : ∀ (st : Stmt) {blocks : List Nat} {names : String → Prop}, (∀ x ∈ st.vars, δ.vars x) →
    (∀ x ∈ st.openNames, names x) →
      Built δ blocks names (Mention.texts st.mentions) (stmt st) (stmt (δ.stmt st))
  | .expression value, _, _, known, _ => by
    rw [Stmt.vars] at known
    rw [Stmt.mentions, Change.stmt, Stmt.rename, Stmt.relabel, stmt, stmt]
    exact effect_built value known
  | .print value, _, _, known, _ => by
    rw [Stmt.vars] at known
    rw [Stmt.mentions, Mention.texts_append, Change.stmt, Stmt.rename, Stmt.relabel, stmt, stmt,
      Change.position_expr]
    exact (expr_built value known).bind fun v => print_built v value.position
  | .declare var none, _, _, known, allowed => by
    rw [Stmt.vars, List.forall_mem_cons] at known
    rw [Stmt.openNames, List.forall_mem_singleton] at allowed
    rw [Stmt.mentions, Change.stmt, Stmt.rename, Stmt.relabel, Option.map_none, Option.map_none, stmt, stmt]
    exact declare_built known.1 allowed _
  | .declare var (some initial), _, _, known, allowed => by
    rw [Stmt.vars, List.forall_mem_cons] at known
    rw [Stmt.openNames, List.forall_mem_singleton] at allowed
    rw [Stmt.mentions, Change.stmt, Stmt.rename, Stmt.relabel, Option.map_some, Option.map_some, stmt, stmt]
    exact (expr_built initial known.2).before fun value => declare_built known.1 allowed value
  | .block body, _, _, known, _ => by
    rw [Stmt.vars] at known
    rw [Stmt.mentions, Change.stmt, Stmt.rename, Stmt.relabel, stmt, stmt]
    exact .withBlockScope (stmts_built body known)
  | .ifElse test yes none, _, _, known, allowed => by
    rw [Stmt.vars, List.forall_mem_append, List.forall_mem_append] at known
    rw [Stmt.openNames] at allowed
    rw [Stmt.mentions, Mention.texts_append, Mention.texts_append, Change.stmt, Stmt.rename,
      Stmt.relabel, stmt, stmt]
    exact ifElse_built (condition_built test known.1) (fun _ => stmt_built yes known.2.1 allowed)
      fun _ => .pure ()
  | .ifElse test yes (some no), _, _, known, allowed => by
    rw [Stmt.vars, List.forall_mem_append, List.forall_mem_append] at known
    rw [Stmt.openNames, List.forall_mem_append] at allowed
    rw [Stmt.mentions, Mention.texts_append, Mention.texts_append, Change.stmt, Stmt.rename,
      Stmt.relabel, stmt, stmt]
    exact ifElse_built (condition_built test known.1) (fun _ => stmt_built yes known.2.1 allowed.1)
      fun _ => stmt_built no known.2.2 allowed.2
  | .whileLoop test body, _, _, known, allowed => by
    rw [Stmt.vars, List.forall_mem_append] at known
    rw [Stmt.openNames] at allowed
    rw [Stmt.mentions, Mention.texts_append, Change.stmt, Stmt.rename, Stmt.relabel, stmt, stmt]
    exact whileLoop_built (fun _ => condition_built test known.1) fun _ => stmt_built body known.2 allowed
  | .forLoop none test step body, _, _, known, allowed => by
    rw [Stmt.vars, List.forall_mem_append, List.forall_mem_append, List.forall_mem_append] at known
    obtain ⟨-, knownTest, knownStep, knownBody⟩ := known
    rw [Stmt.mentions, Mention.texts_append, Mention.texts_append, Mention.texts_append,
      Stmt.optionalMentions, Mention.texts, List.filterMap_nil, List.nil_append, Change.stmt, Stmt.rename, Stmt.relabel,
      stmt_forLoop, stmt_forLoop]
    refine whileLoop_built (fun _ => loopTest_built test knownTest) fun _ => ?_
    refine roundOf_built (fun _ allowed => stmt_built body knownBody allowed) step knownStep fun absent => ?_
    rwa [absent, Stmt.openNames] at allowed
  | .forLoop (some initial) test step body, blocks, _, known, _ => by
    rw [Stmt.vars, List.forall_mem_append, List.forall_mem_append, List.forall_mem_append] at known
    obtain ⟨knownInitial, knownTest, knownStep, knownBody⟩ := known
    rw [Stmt.mentions, Mention.texts_append, Mention.texts_append, Mention.texts_append,
      Change.stmt, Stmt.rename, Stmt.relabel, stmt_forLoop, stmt_forLoop]
    -- the whole loop is in a scope of its own
    have first : Built δ blocks (fun _ => True) _ _ _ := stmt_built initial knownInitial fun _ _ => trivial
    refine .withBlockScope (first.bind fun _ => ?_)
    refine whileLoop_built (fun _ => loopTest_built test knownTest) fun _ => ?_
    exact roundOf_built (fun _ allowed => stmt_built body knownBody allowed) step knownStep
      fun _ _ _ => trivial
  | .function name params body, _, _, known, _ => by
    rw [Stmt.vars, List.forall_mem_append] at known
    rw [Stmt.mentions, Change.stmt, Stmt.rename, Stmt.relabel, stmt, stmt, List.map_map]
    exact .function name (storeParams_built 0 params known.1) (stmts_built body known.2)
  | .ret _ none, _, _, _, _ => by
    rw [Stmt.mentions, Change.stmt, Stmt.rename, Stmt.relabel, Option.map_none, Option.map_none, stmt, stmt]
    exact .emit (.terminate _)
  | .ret _ (some value), _, _, known, _ => by
    rw [Stmt.vars] at known
    rw [Stmt.mentions, Change.stmt, Stmt.rename, Stmt.relabel, Option.map_some, Option.map_some, stmt, stmt]
    exact (expr_built value known).before fun v => .emit (.terminate _)
  | .brk _, _, _, _, _ => by
    rw [Stmt.mentions, Change.stmt, Stmt.rename, Stmt.relabel, stmt, stmt]
    exact .pure ()

theorem stmts_built : ∀ (ss : List Stmt) {blocks : List Nat}, (∀ x ∈ Stmt.listVars ss, δ.vars x) →
    Built δ blocks (fun _ => True) (Mention.texts (Stmt.listMentions ss)) (stmts ss) (stmts (δ.stmts ss))
  | [], _, _ => by
    rw [Stmt.listMentions, Change.stmts, Stmt.listRename, Stmt.listRelabel, stmts]
    exact .pure ()
  | st :: ss, _, known => by
    rw [Stmt.listVars, List.forall_mem_append] at known
    rw [Stmt.listMentions, Mention.texts_append, Change.stmts, Stmt.listRename,
      Stmt.listRelabel, stmts, stmts]
    exact (stmt_built st known.1 fun _ _ => trivial).bind fun _ => stmts_built ss known.2

end

end Lower

end ImpCompiler
