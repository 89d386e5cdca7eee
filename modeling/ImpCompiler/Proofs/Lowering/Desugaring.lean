import ImpCompiler.Proofs.Lowering.Reached

/-! # Programs without sugar

Parentheses, counting loops and breaks can be written with less.  `Stmt.plain` takes them out of a
statement at every depth, and a program that is lowered to a module is lowered to the same module
without them (`lowerProgram_plain`).

Lowering an expression does not notice its parentheses at all, and a counting loop is lowered as what it
stands for.  But a call in parentheses is lowered for its value, and without them for its effect: it may
have no value then.  So it is not the same programs that have a module, and what is proved of statements
is that one run follows another one that succeeds. -/

namespace ImpCompiler

open Ssa

/-! ## Plain trees -/

namespace Expr

mutual

/-- The expression without its parentheses. -/
def plain : Expr → Expr
  | .binary left op right => .binary left.plain op right.plain
  | .unary op operand => .unary op operand.plain
  | .literal value => .literal value
  | .name var => .name var
  | .assign target value => .assign target value.plain
  | .call callee arguments => .call callee (listPlain arguments)
  | .group inner => inner.plain

def listPlain : List Expr → List Expr
  | [] => []
  | e :: es => e.plain :: listPlain es

end

mutual

/-- Whether an expression has no parentheses. -/
def isPlain : Expr → Bool
  | .binary left _ right => left.isPlain && right.isPlain
  | .unary _ operand => operand.isPlain
  | .literal _ | .name _ => true
  | .assign _ value => value.isPlain
  | .call _ arguments => listIsPlain arguments
  | .group _ => false

def listIsPlain : List Expr → Bool
  | [] => true
  | e :: es => e.isPlain && listIsPlain es

end

mutual

theorem isPlain_plain : ∀ e : Expr, e.plain.isPlain = true
  | .binary left _ right => by rw [plain, isPlain, isPlain_plain left, isPlain_plain right, Bool.and_true]
  | .unary _ operand => isPlain_plain operand
  | .literal _ | .name _ => rfl
  | .assign _ value => isPlain_plain value
  | .call _ arguments => listIsPlain_listPlain arguments
  | .group inner => isPlain_plain inner

theorem listIsPlain_listPlain : ∀ es : List Expr, listIsPlain (listPlain es) = true
  | [] => rfl
  | e :: es => by rw [listPlain, listIsPlain, isPlain_plain e, listIsPlain_listPlain es, Bool.and_true]

end

theorem length_listPlain (es : List Expr) : (listPlain es).length = es.length := by
  induction es with
  | nil => rfl
  | cons e es ih => rw [listPlain, List.length_cons, ih, List.length_cons]

/-- A parenthesis does not count as the start of an expression. -/
theorem position_plain : ∀ e : Expr, e.plain.position = e.position
  | .binary left _ _ => position_plain left
  | .group inner => position_plain inner
  | .unary _ _ | .literal _ | .name _ | .assign _ _ | .call _ _ => rfl

end Expr

namespace Stmt

mutual

/-- The statement without parentheses, with a block and a conditional loop for each counting loop, and
    with an empty block for each break. -/
def plain : Stmt → Stmt
  | .expression value => .expression value.plain
  | .print value => .print value.plain
  | .declare var initial => .declare var (initial.map Expr.plain)
  | .block body => .block (listPlain body)
  | .ifElse test yes no => .ifElse test.plain yes.plain (optionPlain no)
  | .whileLoop test body => .whileLoop test.plain body.plain
  | .forLoop initial test step body =>
    desugarFor (optionPlain initial) (test.map Expr.plain) (step.map Expr.plain) body.plain
  | .function name params body => .function name params (listPlain body)
  | .ret keyword value => .ret keyword (value.map Expr.plain)
  | .brk _ => .block []

def listPlain : List Stmt → List Stmt
  | [] => []
  | st :: ss => st.plain :: listPlain ss

def optionPlain : Option Stmt → Option Stmt
  | none => none
  | some st => some st.plain

end

theorem listPlain_eq_map (ss : List Stmt) : listPlain ss = ss.map plain := by
  induction ss with
  | nil => rfl
  | cons st ss ih => rw [listPlain, ih, List.map_cons]

mutual

/-- Whether a statement has no parentheses, counting loops or breaks. -/
def isPlain : Stmt → Bool
  | .expression value | .print value => value.isPlain
  | .declare _ value | .ret _ value => value.all Expr.isPlain
  | .block body | .function _ _ body => listIsPlain body
  | .ifElse test yes no => test.isPlain && yes.isPlain && optionIsPlain no
  | .whileLoop test body => test.isPlain && body.isPlain
  | .forLoop _ _ _ _ | .brk _ => false

def listIsPlain : List Stmt → Bool
  | [] => true
  | st :: ss => st.isPlain && listIsPlain ss

def optionIsPlain : Option Stmt → Bool
  | none => true
  | some st => st.isPlain

end

theorem all_isPlain_map (e : Option Expr) : (e.map Expr.plain).all Expr.isPlain = true := by
  cases e with
  | none => rfl
  | some e => exact e.isPlain_plain

theorem isPlain_desugarFor {initial : Option Stmt} {test step : Option Expr} {body : Stmt}
    (first : optionIsPlain initial = true) (tested : test.all Expr.isPlain = true)
    (stepped : step.all Expr.isPlain = true) (repeated : body.isPlain = true) :
    (desugarFor initial test step body).isPlain = true := by
  have condition : (test.getD always).isPlain = true := by
    cases test with
    | none => rfl
    | some test => exact tested
  cases initial <;> cases step <;>
    simp_all [desugarFor, isPlain, listIsPlain, optionIsPlain]

mutual

theorem isPlain_plain : ∀ st : Stmt, st.plain.isPlain = true
  | .expression value | .print value => value.isPlain_plain
  | .declare _ value | .ret _ value => all_isPlain_map value
  | .block body | .function _ _ body => listIsPlain_listPlain body
  | .ifElse test yes no => by
    rw [plain, isPlain, test.isPlain_plain, isPlain_plain yes, optionIsPlain_optionPlain no]
    rfl
  | .whileLoop test body => by
    rw [plain, isPlain, test.isPlain_plain, isPlain_plain body]
    rfl
  | .forLoop initial test step body =>
    isPlain_desugarFor (optionIsPlain_optionPlain initial) (all_isPlain_map test) (all_isPlain_map step)
      (isPlain_plain body)
  | .brk _ => rfl

theorem listIsPlain_listPlain : ∀ ss : List Stmt, listIsPlain (listPlain ss) = true
  | [] => rfl
  | st :: ss => by rw [listPlain, listIsPlain, isPlain_plain st, listIsPlain_listPlain ss, Bool.and_true]

theorem optionIsPlain_optionPlain : ∀ st : Option Stmt, optionIsPlain (optionPlain st) = true
  | none => rfl
  | some st => isPlain_plain st

end

end Stmt

namespace Lower

variable {α β : Type}

/-! ## Expressions -/

mutual

/-- Lowering does not notice parentheses, not even where it fails. -/
theorem expr_plain : ∀ e : Expr, expr e.plain = expr e
  | .binary left op right => by rw [Expr.plain, expr, expr, expr_plain left, expr_plain right]
  | .unary op operand => by rw [Expr.plain, expr, expr, expr_plain operand]
  | .literal _ | .name _ => rfl
  | .assign target value => by rw [Expr.plain, expr, expr, expr_plain value]
  | .call callee arguments => by
    rw [Expr.plain, expr, expr, funext (args_plain callee.text 0 arguments), Expr.length_listPlain]
  | .group inner => by rw [Expr.plain, expr, expr_plain inner]

theorem args_plain (callee : String) (index : Nat) : ∀ (es : List Expr) (types : List Ty),
    args callee index (Expr.listPlain es) types = args callee index es types
  | [], _ => rfl
  | _ :: _, [] => rfl
  | e :: es, ty :: types => by
    rw [Expr.listPlain, args, args, expr_plain e, Expr.position_plain, args_plain callee (index + 1) es types]

end

theorem condition_plain (e : Expr) : condition e.plain = condition e := by
  rw [condition, condition, expr_plain, Expr.position_plain]

/-! ## Runs that follow one that succeeds -/

/-- Wherever the first step succeeds, the second one does the same. -/
def Refines (first second : Lower α) : Prop :=
  ∀ s a s', first s = .ok a s' → second s = .ok a s'

namespace Refines

variable {first second : Lower α} {next next' : α → Lower β}

theorem refl (action : Lower α) : Refines action action :=
  fun _ _ _ run => run

theorem bind (before : Refines first second) (behind : ∀ a, Refines (next a) (next' a)) :
    Refines (first >>= next) (second >>= next') := by
  intro s b s' run
  obtain ⟨a, middle, done, rest⟩ := bind_eq_ok run
  rw [bind_eq_of_ok (before s a middle done)]
  exact behind a middle b s' rest

/-- What comes first is the same. -/
theorem after (behind : ∀ a, Refines (next a) (next' a)) : Refines (first >>= next) (first >>= next') :=
  (refl first).bind behind

theorem ensuring (body : Refines first second) (restore : LowerState → LowerState) :
    Refines (Lower.ensuring first restore) (Lower.ensuring second restore) := by
  intro s a s' run
  obtain ⟨after, done, rfl⟩ := ensuring_eq_ok run
  rw [Lower.ensuring, body s a after done]

variable {body body' yes yes' no no' : Lower Unit}

theorem withBlockScope (inner : Refines body body') :
    Refines (Lower.withBlockScope body) (Lower.withBlockScope body') :=
  after fun _ => inner.ensuring _

theorem withFunction (id : Nat) (inner : Refines body body') :
    Refines (Lower.withFunction id body) (Lower.withFunction id body') :=
  after fun _ => after fun _ => after fun _ => after fun _ => inner.ensuring _

theorem ifElse (condition : Lower Value) (first : Refines yes yes') (second : Refines no no') :
    Refines (Lower.ifElse condition yes no) (Lower.ifElse condition yes' no') :=
  after fun _ => after fun _ => after fun _ => after fun _ => after fun _ => after fun _ =>
    first.bind fun _ => after fun _ => after fun _ => second.bind fun _ => refl _

theorem whileLoop (condition : Lower Value) (inner : Refines body body') :
    Refines (Lower.whileLoop condition body) (Lower.whileLoop condition body') :=
  after fun _ => after fun _ => after fun _ => after fun _ => after fun _ => after fun _ =>
    after fun _ => after fun _ => inner.bind fun _ => refl _

theorem function (name : Token) (params : List Token) (inner : Refines body body') :
    Refines (Lower.function name params body) (Lower.function name params body') := by
  refine after fun found => ?_
  cases found with
  | some id => exact refl _
  | none => exact after fun id => withFunction id (after fun _ => inner.bind fun _ => refl _)

end Refines

/-! ## Statements -/

/-- A call that is lowered for its value can be lowered for its effect. -/
theorem expr_refines_effect : ∀ e : Expr, Refines (do let _ ← expr e) (effect e)
  | .call callee arguments => by
    intro s u s' run
    obtain ⟨value, middle, done, rest⟩ := bind_eq_ok run
    rw [expr] at done
    obtain ⟨result, called, lowered, given⟩ := bind_eq_ok done
    -- there is a value, so that nothing is lowered behind the call
    cases result with
    | none => cases given
    | some value' =>
      cases given
      rw [effect, bind_eq_of_ok lowered]
      exact rest
  | .binary _ _ _ | .unary _ _ | .literal _ | .name _ | .assign _ _ | .group _ => Refines.refl _

theorem effect_plain (e : Expr) : Refines (effect e) (effect e.plain) := by
  -- a call may have been in parentheses, so all others are compared by their values
  have value := expr_refines_effect e.plain
  rw [expr_plain] at value
  cases e with
  | call callee arguments =>
    rw [Expr.plain, effect, effect, funext (args_plain callee.text 0 arguments), Expr.length_listPlain]
    exact Refines.refl _
  | _ => exact value

/-- An empty block does nothing, as a break. -/
theorem stmt_brk (keyword : Token) : stmt (.brk keyword) = stmt (.block []) := by
  rw [stmt, stmt, stmts]
  rfl

mutual

theorem stmt_plain : ∀ st : Stmt, Refines (stmt st) (stmt st.plain)
  | .expression value => by
    rw [Stmt.plain, stmt, stmt]
    exact effect_plain value
  | .print value => by
    rw [Stmt.plain, stmt, stmt, expr_plain, Expr.position_plain]
    exact .refl _
  | .declare _ none => .refl _
  | .declare var (some initial) => by
    rw [Stmt.plain, Option.map_some, stmt, stmt, expr_plain]
    exact .refl _
  | .block body => by
    rw [Stmt.plain, stmt, stmt]
    exact (stmts_plain body).withBlockScope
  | .ifElse test yes no => by
    rw [Stmt.plain, stmt, stmt, condition_plain]
    exact .ifElse _ (stmt_plain yes) (optional_plain no)
  | .whileLoop test body => by
    rw [Stmt.plain, stmt, stmt, condition_plain]
    exact .whileLoop _ (stmt_plain body)
  | .forLoop initial test step body => by
    -- a loop is lowered as its desugared form, so two loops are compared
    rw [Stmt.plain, ← stmt_forLoop_eq, stmt_forLoop, stmt_forLoop]
    have round : Refines (roundOf body step) (roundOf body.plain (step.map Expr.plain)) := by
      cases step with
      | none => exact stmt_plain body
      | some step => exact .withBlockScope ((stmt_plain body).bind fun _ => effect_plain step)
    have tested : condition ((test.map Expr.plain).getD Stmt.always) =
        condition (test.getD Stmt.always) := by
      cases test with
      | none => rfl
      | some test => exact condition_plain test
    rw [tested]
    cases initial with
    | none => exact .whileLoop _ round
    | some initial => exact .withBlockScope ((stmt_plain initial).bind fun _ => .whileLoop _ round)
  | .function name params body => by
    rw [Stmt.plain, stmt, stmt]
    exact .function name params (stmts_plain body)
  | .ret _ none => .refl _
  | .ret _ (some value) => by
    rw [Stmt.plain, Option.map_some, stmt, stmt, expr_plain]
    exact .refl _
  | .brk keyword => by
    rw [Stmt.plain, stmt_brk]
    exact .refl _

theorem stmts_plain : ∀ ss : List Stmt, Refines (stmts ss) (stmts (Stmt.listPlain ss))
  | [] => .refl _
  | st :: ss => by
    rw [Stmt.listPlain, stmts, stmts]
    exact (stmt_plain st).bind fun _ => stmts_plain ss

theorem optional_plain : ∀ st : Option Stmt, Refines (optional st) (optional (Stmt.optionPlain st))
  | none => .refl _
  | some st => by
    rw [Stmt.optionPlain, optional, optional]
    exact stmt_plain st

end

theorem program_plain (ss : List Stmt) : Refines (program ss) (program (ss.map Stmt.plain)) := by
  rw [← Stmt.listPlain_eq_map]
  exact .after fun _ => .after fun _ => .after fun _ => (stmts_plain ss).bind fun _ => .refl _

end Lower

/-- A program that has a module has the same module without parentheses, counting loops and breaks,
    whatever depth they are at. -/
theorem lowerProgram_plain {moduleName : String} {ss : List Stmt} {m : Module}
    (accepted : lowerProgram moduleName ss = .ok m) :
    lowerProgram moduleName (ss.map Stmt.plain) = .ok m ∧ ∀ st ∈ ss.map Stmt.plain, st.isPlain = true := by
  constructor
  · obtain ⟨s, run, rfl⟩ := program_of_lowerProgram accepted
    have run' := Lower.program_plain ss _ () s run
    rw [lowerProgram, run] at accepted
    rw [lowerProgram, run']
    exact accepted
  · rintro _ member
    obtain ⟨st, _, rfl⟩ := List.mem_map.mp member
    exact st.isPlain_plain

/-- A counting loop that breaks, in a function, and a call of it in parentheses. -/
theorem lowerProgram_plain_loop :
    let i := Token.synthetic .identifier "i"
    let f := Token.synthetic .identifier "f"
    let less := Token.synthetic .compare "<"
    let limit := Expr.literal (.synthetic .intLiteral "3")
    let keyword := Token.synthetic .keyword "break"
    let statements : List Stmt :=
      [.function f [] [.forLoop (some (.declare i none)) (some (.group (.binary (.name i) less (.group limit))))
        (some (.group (.assign i limit))) (.brk keyword)], .expression (.group (.call f []))]
    let plain : List Stmt :=
      [.function f [] [.block [.declare i none, .whileLoop (.binary (.name i) less limit)
        (.block [.block [], .expression (.assign i limit)])]], .expression (.call f [])]
    ∃ m, lowerProgram "m" statements = .ok m ∧ lowerProgram "m" plain = .ok m := by
  intro i f less limit keyword statements plain
  have lowers : (lowerProgram "m" statements).toOption.isSome = true := by decide +kernel
  obtain ⟨m, lowered⟩ := Option.isSome_iff_exists.mp lowers
  have run := eq_ok_of_toOption lowered
  exact ⟨m, run, (lowerProgram_plain run).1⟩

-- The converse fails: a call without a value is no expression, and so has no parentheses around it.
example :
    let one := Expr.literal (.synthetic .intLiteral "1")
    let call := Expr.call (.synthetic .identifier "print_integer") [one]
    (lowerProgram "m" [.print one, .expression (.group call)]).isOk = false ∧
      (lowerProgram "m" [.print one, .expression call]).isOk = true := by
  decide +kernel

end ImpCompiler
