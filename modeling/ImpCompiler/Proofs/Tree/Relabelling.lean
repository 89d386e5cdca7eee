import ImpCompiler.Proofs.Tree.Completeness

/-! # Reading other tokens of the same kinds

The parser looks at kinds and texts of tokens and at nothing else.  So if the positions of the tokens
change, then what it reads changes as the tokens do, and so does the place of an error
(`statements_follow`).  The number of steps does not matter either, as long as there are enough: they are
not used up then. -/

namespace ImpCompiler

/-- A change of tokens that the parser does not see. -/
structure Relabelling (φ : Token → Token) : Prop where
  kind : ∀ t, (φ t).kind = t.kind
  text : ∀ t, (φ t).text = t.text
  always : φ (.synthetic .boolLiteral "true") = .synthetic .boolLiteral "true"

namespace Expr

mutual

/-- The expression with its tokens changed. -/
def relabel (φ : Token → Token) : Expr → Expr
  | .binary left op right => .binary (left.relabel φ) (φ op) (right.relabel φ)
  | .unary op operand => .unary (φ op) (operand.relabel φ)
  | .literal value => .literal (φ value)
  | .name var => .name (φ var)
  | .assign target value => .assign (φ target) (value.relabel φ)
  | .call callee arguments => .call (φ callee) (listRelabel φ arguments)
  | .group inner => .group (inner.relabel φ)

def listRelabel (φ : Token → Token) : List Expr → List Expr
  | [] => []
  | e :: es => e.relabel φ :: listRelabel φ es

end

theorem listRelabel_eq_map (φ : Token → Token) (es : List Expr) :
    listRelabel φ es = es.map (relabel φ) := by
  induction es with
  | nil => rfl
  | cons e es ih => rw [listRelabel, ih, List.map_cons]

mutual

theorem relabel_id : (e : Expr) → e.relabel id = e
  | .binary left _ right => by rw [relabel, relabel_id left, relabel_id right, id]
  | .unary _ operand => by rw [relabel, relabel_id operand, id]
  | .literal _ => rfl
  | .name _ => rfl
  | .assign _ value => by rw [relabel, relabel_id value, id]
  | .call _ arguments => by rw [relabel, listRelabel_id arguments, id]
  | .group inner => by rw [relabel, relabel_id inner]

theorem listRelabel_id : (es : List Expr) → listRelabel id es = es
  | [] => rfl
  | e :: es => by rw [listRelabel, relabel_id e, listRelabel_id es]

end

end Expr

namespace Stmt

mutual

/-- The statement with its tokens changed. -/
def relabel (φ : Token → Token) : Stmt → Stmt
  | .expression value => .expression (value.relabel φ)
  | .print value => .print (value.relabel φ)
  | .declare var initial => .declare (φ var) (initial.map (Expr.relabel φ))
  | .block body => .block (listRelabel φ body)
  | .ifElse test yes no => .ifElse (test.relabel φ) (yes.relabel φ) (optionRelabel φ no)
  | .whileLoop test body => .whileLoop (test.relabel φ) (body.relabel φ)
  | .forLoop initial test step body =>
    .forLoop (optionRelabel φ initial) (test.map (Expr.relabel φ)) (step.map (Expr.relabel φ))
      (body.relabel φ)
  | .function name params body => .function (φ name) (params.map φ) (listRelabel φ body)
  | .ret keyword value => .ret (φ keyword) (value.map (Expr.relabel φ))
  | .brk keyword => .brk (φ keyword)

def listRelabel (φ : Token → Token) : List Stmt → List Stmt
  | [] => []
  | st :: ss => st.relabel φ :: listRelabel φ ss

def optionRelabel (φ : Token → Token) : Option Stmt → Option Stmt
  | none => none
  | some st => some (st.relabel φ)

end

theorem listRelabel_eq_map (φ : Token → Token) (ss : List Stmt) :
    listRelabel φ ss = ss.map (relabel φ) := by
  induction ss with
  | nil => rfl
  | cons st ss ih => rw [listRelabel, ih, List.map_cons]

mutual

theorem relabel_id : (st : Stmt) → st.relabel id = st
  | .expression value => by rw [relabel, value.relabel_id]
  | .print value => by rw [relabel, value.relabel_id]
  | .declare _ initial => by
    rw [relabel, funext Expr.relabel_id, Option.map_id', id]
  | .block body => by rw [relabel, listRelabel_id body]
  | .ifElse test yes no => by
    rw [relabel, test.relabel_id, relabel_id yes, optionRelabel_id no]
  | .whileLoop test body => by rw [relabel, test.relabel_id, relabel_id body]
  | .forLoop initial test step body => by
    rw [relabel, optionRelabel_id initial, relabel_id body, funext Expr.relabel_id, Option.map_id',
      Option.map_id']
  | .function _ params body => by rw [relabel, listRelabel_id body, List.map_id, id]
  | .ret _ value => by rw [relabel, funext Expr.relabel_id, Option.map_id', id]
  | .brk _ => rfl

theorem listRelabel_id : (ss : List Stmt) → listRelabel id ss = ss
  | [] => rfl
  | st :: ss => by rw [listRelabel, relabel_id st, listRelabel_id ss]

theorem optionRelabel_id : (st : Option Stmt) → optionRelabel id st = st
  | none => rfl
  | some st => by rw [optionRelabel, relabel_id st]

end

theorem relabel_desugarFor {φ : Token → Token} (change : Relabelling φ) (initial : Option Stmt)
    (test step : Option Expr) (body : Stmt) :
    (desugarFor initial test step body).relabel φ =
      desugarFor (initial.map (relabel φ)) (test.map (Expr.relabel φ)) (step.map (Expr.relabel φ))
        (body.relabel φ) := by
  have condition : (test.getD always).relabel φ = (test.map (Expr.relabel φ)).getD always := by
    cases test with
    | some test => rfl
    | none => simp [always, Expr.relabel, change.always]
  cases initial <;> cases step <;> simp [desugarFor, relabel, listRelabel, condition]

end Stmt

namespace Parser

open Grammar

variable {α β γ δ : Type} {φ : Token → Token}

theorem atEnd_map (change : Relabelling φ) (rest : List Token) : atEnd (rest.map φ) = atEnd rest := by
  cases rest <;> simp [atEnd, Token.isEnd, change.kind]

/-! ## Results that follow -/

/-- The same error, at a changed token. -/
inductive Moved (φ : Token → Token) : ParseError → ParseError → Prop where
  | atToken (t : Token) (cause : Cause) : Moved φ (.atToken t cause) (.atToken (φ t) cause)
  | atEnd (cause : Cause) : Moved φ (.here [] cause) (.here [] cause)

/-- The second result is the first one with its tokens changed, and in neither of them are the steps
    used up. -/
inductive Follows (φ : Token → Token) (f : α → β) : EStateM.Result ParseError (List Token) α →
    EStateM.Result ParseError (List Token) β → Prop where
  | ok (a : α) (rest : List Token) : Follows φ f (.ok a rest) (.ok (f a) (rest.map φ))
  | error {e e' : ParseError} (rest : List Token) (same : Moved φ e e')
      (finished : e.cause ≠ .outOfFuel) : Follows φ f (.error e rest) (.error e' (rest.map φ))

namespace Follows

variable {f : α → β} {g : γ → δ} {rest : List Token}

theorem failHere {cause : Cause} (finished : cause ≠ .outOfFuel) :
    Follows φ f (Parser.failHere cause rest) (Parser.failHere cause (rest.map φ)) := by
  cases rest with
  | nil => exact .error [] (.atEnd cause) finished
  | cons t behind => exact .error (t :: behind) (.atToken t cause) finished

theorem failAt (t : Token) {cause : Cause} (finished : cause ≠ .outOfFuel) :
    Follows φ f (Parser.failAt t cause rest) (Parser.failAt (φ t) cause (rest.map φ)) :=
  .error rest (.atToken t cause) finished

theorem cases {r : EStateM.Result ParseError (List Token) α} {r' : EStateM.Result ParseError (List Token) β}
    (follows : Follows φ f r r') :
    (∃ a behind, r = .ok a behind ∧ r' = .ok (f a) (behind.map φ)) ∨
      ∃ e e' behind, r = .error e behind ∧ r' = .error e' (behind.map φ) ∧ Moved φ e e' ∧
        e.cause ≠ .outOfFuel := by
  cases follows with
  | ok a behind => exact .inl ⟨a, behind, rfl, rfl⟩
  | @error e e' behind same finished => exact .inr ⟨e, e', behind, rfl, rfl, same, finished⟩

theorem bind {p : Parser α} {q : Parser β} {next : α → Parser γ} {next' : β → Parser δ}
    {rest' : List Token} (first : Follows φ f (p rest) (q rest'))
    (second : ∀ a behind, p rest = .ok a behind →
      Follows φ g (next a behind) (next' (f a) (behind.map φ))) :
    Follows φ g ((p >>= next) rest) ((q >>= next') rest') := by
  simp only [Bind.bind, EStateM.bind]
  obtain ⟨a, behind, run, run'⟩ | ⟨e, e', behind, run, run', same, finished⟩ := first.cases
  · rw [run, run']
    exact second a behind run
  · rw [run, run']
    exact .error behind same finished

theorem map {p : Parser α} {q : Parser β} {rest' : List Token} {h : α → γ} {h' : β → δ}
    (first : Follows φ f (p rest) (q rest')) (same : ∀ a, h' (f a) = g (h a)) :
    Follows φ g ((h <$> p) rest) ((h' <$> q) rest') := by
  rw [map_eq_pure_bind, map_eq_pure_bind]
  refine first.bind fun a behind _ => ?_
  rw [same]
  exact .ok _ behind

theorem takeIf (change : Relabelling φ) {accepts : Token → Bool}
    (blind : ∀ t, accepts (φ t) = accepts t) {next : Option Token → Parser γ}
    {next' : Option Token → Parser δ}
    (absent : Follows φ g (next none rest) (next' none (rest.map φ)))
    (present : ∀ t behind, rest = t :: behind → accepts t = true →
      Follows φ g (next (some t) behind) (next' (some (φ t)) (behind.map φ))) :
    Follows φ g ((takeIf accepts >>= next) rest) ((takeIf accepts >>= next') (rest.map φ)) := by
  cases rest with
  | nil => exact absent
  | cons t behind =>
    have same : starts accepts ((t :: behind).map φ) = starts accepts (t :: behind) := by
      simp [starts, Token.isEnd, change.kind, blind]
    cases taken : starts accepts (t :: behind) with
    | true =>
      rw [taken] at same
      rw [bind_eq (takeIf_eq_some taken), List.map_cons, bind_eq (takeIf_eq_some same)]
      refine present t behind rfl ?_
      simp only [starts, Bool.and_eq_true] at taken
      exact taken.2
    | false =>
      rw [taken] at same
      rw [bind_eq (takeIf_eq_none taken), bind_eq (takeIf_eq_none same)]
      exact absent

theorem accept (change : Relabelling φ) {kind : Kind} {next : Option Token → Parser γ}
    {next' : Option Token → Parser δ}
    (absent : Follows φ g (next none rest) (next' none (rest.map φ)))
    (present : ∀ t behind, rest = t :: behind → t.kind = kind →
      Follows φ g (next (some t) behind) (next' (some (φ t)) (behind.map φ))) :
    Follows φ g ((accept kind >>= next) rest) ((accept kind >>= next') (rest.map φ)) :=
  takeIf change (fun t => by rw [change.kind]) absent
    fun t behind split is => present t behind split (eq_of_beq is)

theorem acceptText (change : Relabelling φ) {kind : Kind} {text : String}
    {next : Option Token → Parser γ} {next' : Option Token → Parser δ}
    (absent : Follows φ g (next none rest) (next' none (rest.map φ)))
    (present : ∀ t behind, rest = t :: behind →
      Follows φ g (next (some t) behind) (next' (some (φ t)) (behind.map φ))) :
    Follows φ g ((acceptText kind text >>= next) rest) ((acceptText kind text >>= next') (rest.map φ)) :=
  takeIf change (fun t => by simp [Token.is, change.kind, change.text]) absent
    fun t behind split _ => present t behind split

theorem expect (change : Relabelling φ) {kind : Kind} {cause : Cause} (finished : cause ≠ .outOfFuel)
    {next : Token → Parser γ} {next' : Token → Parser δ}
    (present : ∀ t behind, rest = t :: behind →
      Follows φ g (next t behind) (next' (φ t) (behind.map φ))) :
    Follows φ g ((expect kind cause >>= next) rest) ((expect kind cause >>= next') (rest.map φ)) := by
  rw [Parser.expect, bind_assoc, bind_assoc]
  refine accept change ?_ (fun t behind split _ => present t behind split)
  refine bind (f := φ) (failHere finished) fun a behind run => ?_
  cases run

theorem nextIs (change : Relabelling φ) {kind : Kind} {next : Bool → Parser γ} {next' : Bool → Parser δ}
    (either : ∀ b, Follows φ g (next b rest) (next' b (rest.map φ))) :
    Follows φ g ((nextIs kind >>= next) rest) ((nextIs kind >>= next') (rest.map φ)) := by
  have same : starts (fun t => t.kind == kind) (rest.map φ) = starts (fun t => t.kind == kind) rest := by
    cases rest <;> simp [starts, Token.isEnd, change.kind]
  rw [bind_eq (nextIs_eq rfl), bind_eq (nextIs_eq same)]
  exact either _

theorem get {next : List Token → Parser γ} {next' : List Token → Parser δ}
    (behind : Follows φ g (next rest rest) (next' (rest.map φ) (rest.map φ))) :
    Follows φ g ((get >>= next) rest) ((get >>= next') (rest.map φ)) :=
  behind

end Follows

theorem Takes.length_le {p : Parser α} {rest rest' : List Token} {a : α}
    {Q : List Token → α → List Token → Prop} (takes : Takes p rest Q) (run : p rest = .ok a rest') :
    rest'.length ≤ rest.length := by
  obtain ⟨used, rfl, _⟩ := takes a rest' run
  rw [List.length_append]
  exact Nat.le_add_left _ _

/-! ## Expressions -/

/-- What the functions for expressions read follows, with `n` steps and with any other number of them
    that is large enough. -/
structure ExprsFollow (φ : Token → Token) (n : Nat) : Prop where
  expression : ∀ m rest, 9 * rest.length + 5 ≤ n → 9 * rest.length + 5 ≤ m →
    Follows φ (Expr.relabel φ) (expression n rest) (expression m (rest.map φ))
  comparison : ∀ m rest, 9 * rest.length + 4 ≤ n → 9 * rest.length + 4 ≤ m →
    Follows φ (Expr.relabel φ) (comparison n rest) (comparison m (rest.map φ))
  comparisonRest : ∀ left m rest, 9 * rest.length + 1 ≤ n → 9 * rest.length + 1 ≤ m →
    Follows φ (Expr.relabel φ) (comparisonRest n left rest)
      (comparisonRest m (left.relabel φ) (rest.map φ))
  arithmetic : ∀ m rest, 9 * rest.length + 3 ≤ n → 9 * rest.length + 3 ≤ m →
    Follows φ (Expr.relabel φ) (arithmetic n rest) (arithmetic m (rest.map φ))
  arithmeticRest : ∀ left m rest, 9 * rest.length + 1 ≤ n → 9 * rest.length + 1 ≤ m →
    Follows φ (Expr.relabel φ) (arithmeticRest n left rest)
      (arithmeticRest m (left.relabel φ) (rest.map φ))
  unary : ∀ m rest, 9 * rest.length + 2 ≤ n → 9 * rest.length + 2 ≤ m →
    Follows φ (Expr.relabel φ) (unary n rest) (unary m (rest.map φ))
  callRest : ∀ callee m rest, 9 * rest.length + 1 ≤ n → 9 * rest.length + 1 ≤ m →
    Follows φ (Expr.relabel φ) (callRest n callee rest) (callRest m (callee.relabel φ) (rest.map φ))
  argumentList : ∀ read m rest, 9 * rest.length + 6 ≤ n → 9 * rest.length + 6 ≤ m →
    Follows φ (List.map (Expr.relabel φ)) (argumentList n read rest)
      (argumentList m (read.map (Expr.relabel φ)) (rest.map φ))
  primary : ∀ m rest, 9 * rest.length + 1 ≤ n → 9 * rest.length + 1 ≤ m →
    Follows φ (Expr.relabel φ) (primary n rest) (primary m (rest.map φ))

namespace ExprsFollow

variable {n : Nat} (before : ExprsFollow φ n)

include before

theorem comparison_succ (m : Nat) (rest : List Token) (fuel : 9 * rest.length + 4 ≤ n + 1)
    (fuel' : 9 * rest.length + 4 ≤ m) :
    Follows φ (Expr.relabel φ) (Parser.comparison (n + 1) rest) (Parser.comparison m (rest.map φ)) := by
  obtain ⟨m, rfl⟩ : ∃ k, m = k + 1 := ⟨m - 1, by omega⟩
  rw [Parser.comparison, Parser.comparison]
  refine (before.arithmetic m rest (by omega) (by omega)).bind fun left rest₁ run => ?_
  have shorter := ((exprs_take n).arithmetic rest).length_le run
  exact before.comparisonRest left m rest₁ (by omega) (by omega)

theorem arithmetic_succ (m : Nat) (rest : List Token) (fuel : 9 * rest.length + 3 ≤ n + 1)
    (fuel' : 9 * rest.length + 3 ≤ m) :
    Follows φ (Expr.relabel φ) (Parser.arithmetic (n + 1) rest) (Parser.arithmetic m (rest.map φ)) := by
  obtain ⟨m, rfl⟩ : ∃ k, m = k + 1 := ⟨m - 1, by omega⟩
  rw [Parser.arithmetic, Parser.arithmetic]
  refine (before.unary m rest (by omega) (by omega)).bind fun left rest₁ run => ?_
  have shorter := ((exprs_take n).unary rest).length_le run
  exact before.arithmeticRest left m rest₁ (by omega) (by omega)

variable (change : Relabelling φ)

include change

theorem expression_succ (m : Nat) (rest : List Token) (fuel : 9 * rest.length + 5 ≤ n + 1)
    (fuel' : 9 * rest.length + 5 ≤ m) :
    Follows φ (Expr.relabel φ) (Parser.expression (n + 1) rest) (Parser.expression m (rest.map φ)) := by
  obtain ⟨m, rfl⟩ : ∃ k, m = k + 1 := ⟨m - 1, by omega⟩
  rw [Parser.expression, Parser.expression]
  refine (before.comparison m rest (by omega) (by omega)).bind fun left rest₁ run => ?_
  have shorter := ((exprs_take n).comparison rest).length_le run
  refine Follows.acceptText change (.ok left rest₁) ?_
  rintro equals rest₂ rfl
  rw [List.length_cons] at shorter
  refine (before.expression m rest₂ (by omega) (by omega)).bind fun value rest₃ _ => ?_
  cases left with
  | name target => exact .ok (Expr.assign target value) rest₃
  | _ => exact Follows.failAt _ (by decide)

theorem comparisonRest_succ (left : Expr) (m : Nat) (rest : List Token)
    (fuel : 9 * rest.length + 1 ≤ n + 1) (fuel' : 9 * rest.length + 1 ≤ m) :
    Follows φ (Expr.relabel φ) (Parser.comparisonRest (n + 1) left rest)
      (Parser.comparisonRest m (left.relabel φ) (rest.map φ)) := by
  obtain ⟨m, rfl⟩ : ∃ k, m = k + 1 := ⟨m - 1, by omega⟩
  rw [Parser.comparisonRest, Parser.comparisonRest]
  refine Follows.accept change (.ok left rest) ?_
  rintro op rest₁ rfl _
  rw [List.length_cons] at fuel fuel'
  refine (before.arithmetic m rest₁ (by omega) (by omega)).bind fun right rest₂ run => ?_
  have shorter := ((exprs_take n).arithmetic rest₁).length_le run
  exact before.comparisonRest (.binary left op right) m rest₂ (by omega) (by omega)

theorem arithmeticRest_succ (left : Expr) (m : Nat) (rest : List Token)
    (fuel : 9 * rest.length + 1 ≤ n + 1) (fuel' : 9 * rest.length + 1 ≤ m) :
    Follows φ (Expr.relabel φ) (Parser.arithmeticRest (n + 1) left rest)
      (Parser.arithmeticRest m (left.relabel φ) (rest.map φ)) := by
  obtain ⟨m, rfl⟩ : ∃ k, m = k + 1 := ⟨m - 1, by omega⟩
  rw [Parser.arithmeticRest, Parser.arithmeticRest]
  refine Follows.accept change (.ok left rest) ?_
  rintro op rest₁ rfl _
  rw [List.length_cons] at fuel fuel'
  refine (before.unary m rest₁ (by omega) (by omega)).bind fun right rest₂ run => ?_
  have shorter := ((exprs_take n).unary rest₁).length_le run
  exact before.arithmeticRest (.binary left op right) m rest₂ (by omega) (by omega)

theorem unary_succ (m : Nat) (rest : List Token) (fuel : 9 * rest.length + 2 ≤ n + 1)
    (fuel' : 9 * rest.length + 2 ≤ m) :
    Follows φ (Expr.relabel φ) (Parser.unary (n + 1) rest) (Parser.unary m (rest.map φ)) := by
  obtain ⟨m, rfl⟩ : ∃ k, m = k + 1 := ⟨m - 1, by omega⟩
  have blind : ∀ t, isSign (φ t) = isSign t := fun t => by
    simp [isSign, Token.is, change.kind, change.text]
  rw [Parser.unary, Parser.unary]
  refine Follows.takeIf change blind ?_ ?_
  · refine (before.primary m rest (by omega) (by omega)).bind fun operand rest₁ run => ?_
    have shorter := ((exprs_take n).primary rest).length_le run
    exact before.callRest operand m rest₁ (by omega) (by omega)
  · rintro op rest₁ rfl _
    rw [List.length_cons] at fuel fuel'
    refine (before.unary m rest₁ (by omega) (by omega)).bind fun operand rest₂ _ => ?_
    exact .ok (Expr.unary op operand) rest₂

theorem callRest_succ (callee : Expr) (m : Nat) (rest : List Token)
    (fuel : 9 * rest.length + 1 ≤ n + 1) (fuel' : 9 * rest.length + 1 ≤ m) :
    Follows φ (Expr.relabel φ) (Parser.callRest (n + 1) callee rest)
      (Parser.callRest m (callee.relabel φ) (rest.map φ)) := by
  obtain ⟨m, rfl⟩ : ∃ k, m = k + 1 := ⟨m - 1, by omega⟩
  rw [Parser.callRest, Parser.callRest]
  refine Follows.accept change (.ok callee rest) ?_
  rintro opening rest₁ rfl _
  rw [List.length_cons] at fuel fuel'
  cases callee with
  | name function =>
    have closed : ∀ es rest₂, rest₂.length ≤ rest₁.length →
        Follows φ (Expr.relabel φ)
          ((do let _ ← Parser.expect .rightParen .argumentsClose
               Parser.callRest n (.call function es) : Parser Expr) rest₂)
          ((do let _ ← Parser.expect .rightParen .argumentsClose
               Parser.callRest m (.call (φ function) (es.map (Expr.relabel φ))) : Parser Expr)
            (rest₂.map φ)) := by
      intro es rest₂ shorter
      refine Follows.expect change (by decide) ?_
      rintro closing rest₃ rfl
      rw [List.length_cons] at shorter
      have follows := before.callRest (.call function es) m rest₃ (by omega) (by omega)
      rwa [Expr.relabel, Expr.listRelabel_eq_map] at follows
    refine Follows.nextIs change fun ends => ?_
    cases ends with
    | true => exact closed [] rest₁ (Nat.le_refl _)
    | false =>
      refine (before.argumentList [] m rest₁ (by omega) (by omega)).bind fun es rest₂ run => ?_
      exact closed es rest₂ (((exprs_take n).argumentList [] rest₁).length_le run)
  | _ => exact Follows.failAt _ (by decide)

theorem argumentList_succ (read : List Expr) (m : Nat) (rest : List Token)
    (fuel : 9 * rest.length + 6 ≤ n + 1) (fuel' : 9 * rest.length + 6 ≤ m) :
    Follows φ (List.map (Expr.relabel φ)) (Parser.argumentList (n + 1) read rest)
      (Parser.argumentList m (read.map (Expr.relabel φ)) (rest.map φ)) := by
  obtain ⟨m, rfl⟩ : ∃ k, m = k + 1 := ⟨m - 1, by omega⟩
  rw [Parser.argumentList, Parser.argumentList, List.length_map]
  split
  · exact Follows.failHere (by decide)
  · refine (before.expression m rest (by omega) (by omega)).bind fun argument rest₁ run => ?_
    have shorter := ((exprs_take n).expression rest).length_le run
    refine Follows.accept change ?_ ?_
    · rw [← List.map_cons, ← List.map_reverse]
      exact .ok _ rest₁
    · rintro comma rest₂ rfl _
      rw [List.length_cons] at shorter
      exact before.argumentList (argument :: read) m rest₂ (by omega) (by omega)

theorem primary_succ (m : Nat) (rest : List Token) (fuel : 9 * rest.length + 1 ≤ n + 1)
    (fuel' : 9 * rest.length + 1 ≤ m) :
    Follows φ (Expr.relabel φ) (Parser.primary (n + 1) rest) (Parser.primary m (rest.map φ)) := by
  obtain ⟨m, rfl⟩ : ∃ k, m = k + 1 := ⟨m - 1, by omega⟩
  have blind : ∀ t, startsPrimary (φ t) = startsPrimary t := fun t => by
    simp only [startsPrimary, change.kind]
  rw [Parser.primary, Parser.primary]
  refine Follows.takeIf change blind (Follows.failHere (by decide)) ?_
  rintro t rest₁ rfl _
  rw [List.length_cons] at fuel fuel'
  simp only [change.kind]
  cases t.kind with
  | identifier => exact .ok (Expr.name t) rest₁
  | leftParen =>
    refine (before.expression m rest₁ (by omega) (by omega)).bind fun inner rest₂ _ => ?_
    refine Follows.expect change (by decide) ?_
    rintro closing rest₃ rfl
    exact .ok (Expr.group inner) rest₃
  | _ => exact .ok (Expr.literal t) rest₁

end ExprsFollow

theorem exprs_follow (change : Relabelling φ) : ∀ n, ExprsFollow φ n
  | 0 => by
    constructor
    all_goals
      intros
      omega
  | n + 1 =>
    have before := exprs_follow change n
    { expression := before.expression_succ change
      comparison := before.comparison_succ
      comparisonRest := before.comparisonRest_succ change
      arithmetic := before.arithmetic_succ
      arithmeticRest := before.arithmeticRest_succ change
      unary := before.unary_succ change
      callRest := before.callRest_succ change
      argumentList := before.argumentList_succ change
      primary := before.primary_succ change }

/-! ## Clauses -/

section clauses

variable (change : Relabelling φ) {n m : Nat} {rest : List Token}

include change

theorem declaredVariable_follows (fuel : 9 * rest.length ≤ n) (fuel' : 9 * rest.length ≤ m) :
    Follows φ (Stmt.relabel φ) (declaredVariable n rest) (declaredVariable m (rest.map φ)) := by
  rw [declaredVariable, declaredVariable]
  refine Follows.expect change (by decide) ?_
  rintro var rest₁ rfl
  refine Follows.acceptText change ?_ ?_
  · refine Follows.expect change (by decide) ?_
    rintro closing rest₂ rfl
    exact .ok (Stmt.declare var none) rest₂
  · rintro equals rest₂ rfl
    simp only [List.length_cons] at fuel fuel'
    refine ((exprs_follow change n).expression m rest₂ (by omega) (by omega)).bind fun value rest₃ _ => ?_
    refine Follows.expect change (by decide) ?_
    rintro closing rest₄ rfl
    exact .ok (Stmt.declare var (some value)) rest₄

theorem expressionStatement_follows (fuel : 9 * rest.length + 5 ≤ n) (fuel' : 9 * rest.length + 5 ≤ m) :
    Follows φ (Stmt.relabel φ) (expressionStatement n rest) (expressionStatement m (rest.map φ)) := by
  rw [expressionStatement, expressionStatement]
  refine ((exprs_follow change n).expression m rest fuel fuel').bind fun value rest₁ _ => ?_
  refine Follows.expect change (by decide) ?_
  rintro closing rest₂ rfl
  exact .ok (Stmt.expression value) rest₂

theorem printed_follows (fuel : 9 * rest.length + 5 ≤ n) (fuel' : 9 * rest.length + 5 ≤ m) :
    Follows φ (Stmt.relabel φ) (printed n rest) (printed m (rest.map φ)) := by
  rw [printed, printed]
  refine ((exprs_follow change n).expression m rest fuel fuel').bind fun value rest₁ _ => ?_
  refine Follows.expect change (by decide) ?_
  rintro closing rest₂ rfl
  exact .ok (Stmt.print value) rest₂

theorem forClause_follows (fuel : 9 * rest.length + 5 ≤ n) (fuel' : 9 * rest.length + 5 ≤ m)
    (ending : Kind) {cause : Cause} (finished : cause ≠ .outOfFuel) :
    Follows φ (Option.map (Expr.relabel φ)) (forClause n ending cause rest)
      (forClause m ending cause (rest.map φ)) := by
  rw [forClause, forClause]
  refine Follows.nextIs change fun absent => ?_
  cases absent with
  | true =>
    refine Follows.expect change finished ?_
    rintro closing rest₁ rfl
    exact .ok none rest₁
  | false =>
    refine ((exprs_follow change n).expression m rest fuel fuel').bind fun value rest₁ _ => ?_
    refine Follows.expect change finished ?_
    rintro closing rest₂ rfl
    exact .ok (some value) rest₂

theorem forInitial_follows (fuel : 9 * rest.length + 5 ≤ n) (fuel' : 9 * rest.length + 5 ≤ m) :
    Follows φ (Option.map (Stmt.relabel φ)) (forInitial n rest) (forInitial m (rest.map φ)) := by
  rw [forInitial, forInitial]
  refine Follows.accept change ?_ ?_
  · refine Follows.acceptText change ?_ ?_
    · exact (expressionStatement_follows change fuel fuel').map fun _ => rfl
    · rintro keyword rest₁ rfl
      simp only [List.length_cons] at fuel fuel'
      exact (declaredVariable_follows change (by omega) (by omega)).map fun _ => rfl
  · rintro closing rest₁ rfl _
    exact .ok none rest₁

theorem condition_follows (fuel : 9 * rest.length ≤ n) (fuel' : 9 * rest.length ≤ m)
    {opening closing : Cause} (opened : opening ≠ .outOfFuel) (closed : closing ≠ .outOfFuel) :
    Follows φ (Expr.relabel φ) (condition n opening closing rest)
      (condition m opening closing (rest.map φ)) := by
  rw [condition, condition]
  refine Follows.expect change opened ?_
  rintro left rest₁ rfl
  rw [List.length_cons] at fuel fuel'
  refine ((exprs_follow change n).expression m rest₁ (by omega) (by omega)).bind fun value rest₂ _ => ?_
  refine Follows.expect change closed ?_
  rintro right rest₃ rfl
  exact .ok value rest₃

theorem parameterList_follows (read : List Token) (fuel : 9 * rest.length + 1 ≤ n)
    (fuel' : 9 * rest.length + 1 ≤ m) :
    Follows φ (List.map φ) (parameterList n read rest) (parameterList m (read.map φ) (rest.map φ)) := by
  induction n generalizing m rest read with
  | zero => omega
  | succ n ih =>
    obtain ⟨m, rfl⟩ : ∃ k, m = k + 1 := ⟨m - 1, by omega⟩
    rw [parameterList, parameterList, List.length_map]
    split
    · exact Follows.failHere (by decide)
    · refine Follows.expect change (by decide) ?_
      rintro param rest₁ rfl
      refine Follows.accept change ?_ ?_
      · rw [← List.map_cons, ← List.map_reverse]
        exact .ok _ rest₁
      · rintro comma rest₂ rfl _
        simp only [List.length_cons] at fuel fuel'
        exact ih (param :: read) (by omega) (by omega)

theorem functionHead_follows (fuel : 9 * rest.length ≤ n) (fuel' : 9 * rest.length ≤ m) :
    Follows φ (fun head : Token × List Token => (φ head.1, head.2.map φ)) (functionHead n rest)
      (functionHead m (rest.map φ)) := by
  rw [functionHead, functionHead]
  refine Follows.expect change (by decide) ?_
  rintro name rest₁ rfl
  refine Follows.expect change (by decide) ?_
  rintro opening rest₂ rfl
  simp only [List.length_cons] at fuel fuel'
  have closed : ∀ params rest₃,
      Follows φ (fun head : Token × List Token => (φ head.1, head.2.map φ))
        ((do let _ ← expect .rightParen .parametersClose
             let _ ← expect .leftBrace .functionBody
             return (name, params) : Parser (Token × List Token)) rest₃)
        ((do let _ ← expect .rightParen .parametersClose
             let _ ← expect .leftBrace .functionBody
             return (φ name, params.map φ) : Parser (Token × List Token)) (rest₃.map φ)) := by
    intro params rest₃
    refine Follows.expect change (by decide) ?_
    rintro closing rest₄ rfl
    refine Follows.expect change (by decide) ?_
    rintro start rest₅ rfl
    exact .ok (name, params) rest₅
  refine Follows.nextIs change fun absent => ?_
  cases absent with
  | true => exact closed [] rest₂
  | false =>
    exact (parameterList_follows change [] (by omega) (by omega)).bind fun params rest₃ _ =>
      closed params rest₃

end clauses

/-! ## Statements -/

/-- The same as for expressions, for the functions for statements. -/
structure StmtsFollow (φ : Token → Token) (n : Nat) : Prop where
  declaration : ∀ m rest, 9 * rest.length + 7 ≤ n → 9 * rest.length + 7 ≤ m →
    Follows φ (Stmt.relabel φ) (declaration n rest) (declaration m (rest.map φ))
  statement : ∀ m rest, 9 * rest.length + 6 ≤ n → 9 * rest.length + 6 ≤ m →
    Follows φ (Stmt.relabel φ) (statement n rest) (statement m (rest.map φ))
  keywordStatement : ∀ keyword m rest, 9 * rest.length + 7 ≤ n → 9 * rest.length + 7 ≤ m →
    Follows φ (Stmt.relabel φ) (keywordStatement n keyword rest)
      (keywordStatement m (φ keyword) (rest.map φ))
  blockRest : ∀ ending read m rest, ending ≠ .outOfFuel → 9 * rest.length + 8 ≤ n →
    9 * rest.length + 8 ≤ m →
    Follows φ (List.map (Stmt.relabel φ)) (blockRest n ending read rest)
      (blockRest m ending (read.map (Stmt.relabel φ)) (rest.map φ))

/-- A declaration takes a token at least. -/
theorem declaration_length_lt {n : Nat} {rest rest' : List Token} {st : Stmt}
    (run : declaration n rest = .ok st rest') : rest'.length < rest.length := by
  obtain ⟨used, rfl, spelled⟩ := (stmts_take n).declaration rest st rest' run
  have some := spelled.length_pos
  rw [List.length_append]
  omega

namespace StmtsFollow

variable {n : Nat} (change : Relabelling φ) (before : StmtsFollow φ n)

include change before

theorem declaration_succ (m : Nat) (rest : List Token) (fuel : 9 * rest.length + 7 ≤ n + 1)
    (fuel' : 9 * rest.length + 7 ≤ m) :
    Follows φ (Stmt.relabel φ) (Parser.declaration (n + 1) rest) (Parser.declaration m (rest.map φ)) := by
  obtain ⟨m, rfl⟩ : ∃ k, m = k + 1 := ⟨m - 1, by omega⟩
  rw [Parser.declaration, Parser.declaration]
  refine Follows.acceptText change ?_ ?_
  · refine Follows.acceptText change ?_ ?_
    · exact before.statement m rest (by omega) (by omega)
    · rintro keyword rest₁ rfl
      rw [List.length_cons] at fuel fuel'
      exact declaredVariable_follows change (by omega) (by omega)
  · rintro keyword rest₁ rfl
    rw [List.length_cons] at fuel fuel'
    refine (functionHead_follows change (by omega) (by omega)).bind fun head rest₂ run => ?_
    obtain ⟨name, params⟩ := head
    have shorter := (functionHead_takes n rest₁).length_le run
    refine (before.blockRest .functionEnd [] m rest₂ (by decide) (by omega) (by omega)).bind
      fun body rest₃ _ => ?_
    rw [← Stmt.listRelabel_eq_map]
    exact .ok (Stmt.function name params body) rest₃

theorem statement_succ (m : Nat) (rest : List Token) (fuel : 9 * rest.length + 6 ≤ n + 1)
    (fuel' : 9 * rest.length + 6 ≤ m) :
    Follows φ (Stmt.relabel φ) (Parser.statement (n + 1) rest) (Parser.statement m (rest.map φ)) := by
  obtain ⟨m, rfl⟩ : ∃ k, m = k + 1 := ⟨m - 1, by omega⟩
  rw [Parser.statement, Parser.statement]
  refine Follows.accept change ?_ ?_
  · refine Follows.accept change ?_ ?_
    · exact expressionStatement_follows change (by omega) (by omega)
    · rintro keyword rest₁ rfl _
      rw [List.length_cons] at fuel fuel'
      exact before.keywordStatement keyword m rest₁ (by omega) (by omega)
  · rintro opening rest₁ rfl _
    rw [List.length_cons] at fuel fuel'
    refine (before.blockRest .blockEnd [] m rest₁ (by decide) (by omega) (by omega)).map fun body => ?_
    rw [Stmt.relabel, Stmt.listRelabel_eq_map]

theorem keywordStatement_succ (keyword : Token) (m : Nat) (rest : List Token)
    (fuel : 9 * rest.length + 7 ≤ n + 1) (fuel' : 9 * rest.length + 7 ≤ m) :
    Follows φ (Stmt.relabel φ) (Parser.keywordStatement (n + 1) keyword rest)
      (Parser.keywordStatement m (φ keyword) (rest.map φ)) := by
  obtain ⟨m, rfl⟩ : ∃ k, m = k + 1 := ⟨m - 1, by omega⟩
  rw [Parser.keywordStatement, Parser.keywordStatement, change.text]
  generalize keyword.text = text
  split
  · refine (condition_follows change (by omega) (by omega) (by decide) (by decide)).bind
      fun test rest₁ run => ?_
    have shorter := (condition_takes n rest _ _).length_le run
    refine (before.statement m rest₁ (by omega) (by omega)).bind fun yes rest₂ run => ?_
    have shorter' := ((stmts_take n).statement rest₁).length_le run
    refine Follows.acceptText change (.ok (Stmt.ifElse test yes none) rest₂) ?_
    rintro between rest₃ rfl
    rw [List.length_cons] at shorter'
    refine (before.statement m rest₃ (by omega) (by omega)).bind fun no rest₄ _ => ?_
    exact .ok (Stmt.ifElse test yes (some no)) rest₄
  · refine (condition_follows change (by omega) (by omega) (by decide) (by decide)).bind
      fun test rest₁ run => ?_
    have shorter := (condition_takes n rest _ _).length_le run
    refine (before.statement m rest₁ (by omega) (by omega)).bind fun body rest₂ _ => ?_
    exact .ok (Stmt.whileLoop test body) rest₂
  · refine Follows.expect change (by decide) ?_
    rintro opening rest₁ rfl
    rw [List.length_cons] at fuel fuel'
    refine (forInitial_follows change (by omega) (by omega)).bind fun initial rest₂ run => ?_
    have shorter := (forInitial_takes n rest₁).length_le run
    refine (forClause_follows change (by omega) (by omega) _ (by decide)).bind fun test rest₃ run => ?_
    have shorter' := (forClause_takes n rest₂ _ _).length_le run
    refine (forClause_follows change (by omega) (by omega) _ (by decide)).bind fun step rest₄ run => ?_
    have shorter'' := (forClause_takes n rest₃ _ _).length_le run
    refine (before.statement m rest₄ (by omega) (by omega)).bind fun body rest₅ _ => ?_
    rw [← Stmt.relabel_desugarFor change]
    exact .ok (Stmt.desugarFor initial test step body) rest₅
  · exact printed_follows change (by omega) (by omega)
  · rw [returned_eq, returned_eq]
    exact (forClause_follows change (by omega) (by omega) _ (by decide)).map fun _ => rfl
  · rw [broken, broken]
    refine Follows.expect change (by decide) ?_
    rintro closing rest₁ rfl
    exact .ok (Stmt.brk keyword) rest₁
  · exact Follows.failAt _ (by simp)

theorem blockRest_succ (ending : Cause) (read : List Stmt) (m : Nat) (rest : List Token)
    (finished : ending ≠ .outOfFuel) (fuel : 9 * rest.length + 8 ≤ n + 1)
    (fuel' : 9 * rest.length + 8 ≤ m) :
    Follows φ (List.map (Stmt.relabel φ)) (Parser.blockRest (n + 1) ending read rest)
      (Parser.blockRest m ending (read.map (Stmt.relabel φ)) (rest.map φ)) := by
  obtain ⟨m, rfl⟩ : ∃ k, m = k + 1 := ⟨m - 1, by omega⟩
  rw [Parser.blockRest, Parser.blockRest]
  refine Follows.accept change ?_ ?_
  · refine Follows.get ?_
    rw [atEnd_map change]
    split
    · exact Follows.failHere finished
    · refine (before.declaration m rest (by omega) (by omega)).bind fun st rest₁ run => ?_
      have shorter := declaration_length_lt run
      exact before.blockRest ending (st :: read) m rest₁ finished (by omega) (by omega)
  · rintro brace rest₁ rfl _
    rw [← List.map_reverse]
    exact .ok _ rest₁

end StmtsFollow

theorem stmts_follow (change : Relabelling φ) : ∀ n, StmtsFollow φ n
  | 0 => by
    constructor
    all_goals
      intros
      omega
  | n + 1 =>
    have before := stmts_follow change n
    { declaration := before.declaration_succ change
      statement := before.statement_succ change
      keywordStatement := before.keywordStatement_succ change
      blockRest := before.blockRest_succ change }

/-! ## Programs -/

/-- What is read at the top of a program follows, whatever the numbers of steps are. -/
theorem statements_follow (change : Relabelling φ) (n m : Nat) (read : List Stmt) (rest : List Token)
    (fuel : 9 * rest.length + 8 ≤ n) (fuel' : 9 * rest.length + 8 ≤ m) :
    Follows φ (List.map (Stmt.relabel φ)) (statements n read rest)
      (statements m (read.map (Stmt.relabel φ)) (rest.map φ)) := by
  induction n generalizing m read rest with
  | zero => omega
  | succ n ih =>
    obtain ⟨m, rfl⟩ : ∃ k, m = k + 1 := ⟨m - 1, by omega⟩
    cases rest with
    | nil =>
      rw [statements, statements, ← List.map_reverse]
      exact .ok _ []
    | cons t behind =>
      have ends : (φ t).isEnd = t.isEnd := by simp [Token.isEnd, change.kind]
      have stray : isStray (φ t) = isStray t := by simp [isStray, change.kind, change.text]
      rw [List.length_cons] at fuel fuel'
      rw [statements, List.map_cons]
      simp only [statements, ends, stray]
      split
      · rw [← List.map_reverse]
        exact .ok _ (t :: behind)
      split
      · exact ih m read behind (by omega) (by omega)
      have first := (stmts_follow change n).declaration m (t :: behind)
        (by simp only [List.length_cons]; omega) (by simp only [List.length_cons]; omega)
      rw [List.map_cons] at first
      obtain ⟨st, rest₁, run, run'⟩ | ⟨e, e', rest₁, run, run', same, finished⟩ := first.cases
      · have shorter := declaration_length_lt run
        rw [List.length_cons] at shorter
        rw [run, run']
        exact ih m (st :: read) rest₁ (by omega) (by omega)
      · rw [run, run']
        dsimp only
        rw [atEnd_map change]
        split
        · rw [← List.map_reverse]
          exact .ok _ rest₁
        · exact .error rest₁ same finished

end Parser

end ImpCompiler
