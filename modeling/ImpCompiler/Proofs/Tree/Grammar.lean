import ImpCompiler.Tree.Parser

/-! # The grammar

`Derives phrase ts` says that the tokens `ts` are a spelling of `phrase`.  There is one rule for each
form, and no rule mentions what follows the tokens or how they are read.

Expressions come in levels: a primary can be an operand, operands are joined by the operators of
arithmetic, and what that gives is compared.  All operators of a level bind alike and from the left,
so that an operator is spelled between a phrase of its own level and one of the level below.

A spelling is *open* if it ends in a conditional without an `else`.  An open spelling is no first
branch of a conditional that has an `else`: the `else` would belong to the inner one.  Openness is a
property of the spelling and not of the tree, in which a counting loop is a block. -/

namespace ImpCompiler

theorem Token.is_iff {t : Token} {kind : Kind} {text : String} :
    t.is kind text = true ↔ t.kind = kind ∧ t.text = text := by
  simp [Token.is]

namespace Grammar

def isLiteral (t : Token) : Bool :=
  t.kind ∈ [.boolLiteral, .intLiteral, .floatLiteral, .stringLiteral]

theorem isLiteral_iff {t : Token} : isLiteral t = true ↔
    t.kind = .boolLiteral ∨ t.kind = .intLiteral ∨ t.kind = .floatLiteral ∨ t.kind = .stringLiteral := by
  simp [isLiteral]

/-- The signs of the unary operators. -/
def isSign (t : Token) : Bool :=
  t.is .arithmetic "-" || t.is .operator "!"

inductive Phrase where
  | primary (e : Expr)
  | operand (e : Expr)
  | arithmetic (e : Expr)
  | comparison (e : Expr)
  | expression (e : Expr)
  /-- The arguments of a call that has some. -/
  | argumentList (es : List Expr)
  | arguments (es : List Expr)
  /-- The parameters of a function that has some. -/
  | parameterList (names : List Token)
  | parameters (names : List Token)
  /-- An expression that may be left out, and the token that ends it. -/
  | clause (ending : Kind) (e : Option Expr)
  | variable (var : Token) (initial : Option Expr)
  /-- An expression that is a statement. -/
  | effect (e : Expr)
  /-- The first clause of a counting loop. -/
  | initial (st : Option Stmt)
  | statement (st : Stmt) (opened : Bool)
  | declaration (st : Stmt) (opened : Bool)
  | body (ss : List Stmt)

inductive Derives : Phrase → List Token → Prop where
  | literal {t} (kind : isLiteral t = true) : Derives (.primary (.literal t)) [t]
  | name {t} (kind : t.kind = .identifier) : Derives (.primary (.name t)) [t]
  | group {opening e ts} {closing : Token} (opens : opening.kind = .leftParen)
      (inner : Derives (.expression e) ts) (closes : closing.kind = .rightParen) :
      Derives (.primary (.group e)) (opening :: (ts ++ [closing]))
  | primary {e ts} (plain : Derives (.primary e) ts) : Derives (.operand e) ts
  | call {callee opening es ts} {closing : Token} (kind : callee.kind = .identifier)
      (opens : opening.kind = .leftParen) (passed : Derives (.arguments es) ts)
      (closes : closing.kind = .rightParen) :
      Derives (.operand (.call callee es)) (callee :: opening :: (ts ++ [closing]))
  | sign {op e ts} (sign : isSign op = true) (signed : Derives (.operand e) ts) :
      Derives (.operand (.unary op e)) (op :: ts)
  | operand {e ts} (single : Derives (.operand e) ts) : Derives (.arithmetic e) ts
  | joined {left op right ls rs} (first : Derives (.arithmetic left) ls) (kind : op.kind = .arithmetic)
      (second : Derives (.operand right) rs) :
      Derives (.arithmetic (.binary left op right)) (ls ++ op :: rs)
  | arithmetic {e ts} (single : Derives (.arithmetic e) ts) : Derives (.comparison e) ts
  | compared {left op right ls rs} (first : Derives (.comparison left) ls) (kind : op.kind = .compare)
      (second : Derives (.arithmetic right) rs) :
      Derives (.comparison (.binary left op right)) (ls ++ op :: rs)
  | comparison {e ts} (value : Derives (.comparison e) ts) : Derives (.expression e) ts
  | assigned {target equals e ts} (kind : target.kind = .identifier)
      (sign : equals.is .operator "=" = true) (value : Derives (.expression e) ts) :
      Derives (.expression (.assign target e)) (target :: equals :: ts)
  | lastArgument {e ts} (value : Derives (.expression e) ts) : Derives (.argumentList [e]) ts
  | nextArgument {e ts comma es us} (value : Derives (.expression e) ts) (kind : comma.kind = .comma)
      (further : Derives (.argumentList es) us) : Derives (.argumentList (e :: es)) (ts ++ comma :: us)
  | noArguments : Derives (.arguments []) []
  | someArguments {es ts} (listed : Derives (.argumentList es) ts)
      (few : es.length ≤ Parser.maxArguments) : Derives (.arguments es) ts
  | lastParameter {param} (kind : param.kind = .identifier) : Derives (.parameterList [param]) [param]
  | nextParameter {param comma params ts} (kind : param.kind = .identifier)
      (separated : comma.kind = .comma) (further : Derives (.parameterList params) ts) :
      Derives (.parameterList (param :: params)) (param :: comma :: ts)
  | noParameters : Derives (.parameters []) []
  | someParameters {params ts} (listed : Derives (.parameterList params) ts)
      (few : params.length ≤ Parser.maxArguments) : Derives (.parameters params) ts
  | noClause {ending} {closing : Token} (ends : closing.kind = ending) (inside : closing.isEnd = false) :
      Derives (.clause ending none) [closing]
  | someClause {ending} {closing : Token} {e ts} (value : Derives (.expression e) ts)
      (ends : closing.kind = ending) (inside : closing.isEnd = false) :
      Derives (.clause ending (some e)) (ts ++ [closing])
  | unset {keyword var} {closing : Token} (keyed : keyword.is .keyword "var" = true)
      (kind : var.kind = .identifier) (ends : closing.kind = .semicolon) :
      Derives (.variable var none) [keyword, var, closing]
  | set {keyword var equals e ts} {closing : Token} (keyed : keyword.is .keyword "var" = true)
      (kind : var.kind = .identifier) (sign : equals.is .operator "=" = true)
      (value : Derives (.expression e) ts) (ends : closing.kind = .semicolon) :
      Derives (.variable var (some e)) (keyword :: var :: equals :: (ts ++ [closing]))
  | effect {e ts} {closing : Token} (value : Derives (.expression e) ts)
      (ends : closing.kind = .semicolon) : Derives (.effect e) (ts ++ [closing])
  | noInitial {closing : Token} (ends : closing.kind = .semicolon) : Derives (.initial none) [closing]
  | variableInitial {var initial ts} (first : Derives (.variable var initial) ts) :
      Derives (.initial (some (.declare var initial))) ts
  | effectInitial {e ts} (first : Derives (.effect e) ts) : Derives (.initial (some (.expression e))) ts
  | effectStatement {e ts} (simple : Derives (.effect e) ts) :
      Derives (.statement (.expression e) false) ts
  | print {keyword e ts} {closing : Token} (keyed : keyword.is .keyword "screenit" = true)
      (value : Derives (.expression e) ts) (ends : closing.kind = .semicolon) :
      Derives (.statement (.print e) false) (keyword :: (ts ++ [closing]))
  | ret {keyword e ts} (keyed : keyword.is .keyword "return" = true)
      (value : Derives (.clause .semicolon e) ts) :
      Derives (.statement (.ret keyword e) false) (keyword :: ts)
  | brk {keyword} {closing : Token} (keyed : keyword.is .keyword "break" = true)
      (ends : closing.kind = .semicolon) : Derives (.statement (.brk keyword) false) [keyword, closing]
  | block {opening ss ts} {closing : Token} (opens : opening.kind = .leftBrace)
      (inner : Derives (.body ss) ts) (closes : closing.kind = .rightBrace) :
      Derives (.statement (.block ss) false) (opening :: (ts ++ [closing]))
  | ifThen {keyword opening test ts} {closing : Token} {yes opened us}
      (keyed : keyword.is .keyword "if" = true) (opens : opening.kind = .leftParen)
      (tested : Derives (.expression test) ts)
      (closes : closing.kind = .rightParen) (first : Derives (.statement yes opened) us) :
      Derives (.statement (.ifElse test yes none) true) (keyword :: opening :: (ts ++ closing :: us))
  | ifElse {keyword opening test ts} {closing : Token} {yes us between no opened vs}
      (keyed : keyword.is .keyword "if" = true) (opens : opening.kind = .leftParen)
      (tested : Derives (.expression test) ts) (closes : closing.kind = .rightParen)
      (first : Derives (.statement yes false) us) (parted : between.is .keyword "else" = true)
      (second : Derives (.statement no opened) vs) :
      Derives (.statement (.ifElse test yes (some no)) opened)
        (keyword :: opening :: (ts ++ closing :: (us ++ between :: vs)))
  | whileLoop {keyword opening test ts} {closing : Token} {body opened us}
      (keyed : keyword.is .keyword "while" = true) (opens : opening.kind = .leftParen)
      (tested : Derives (.expression test) ts) (closes : closing.kind = .rightParen)
      (repeated : Derives (.statement body opened) us) :
      Derives (.statement (.whileLoop test body) opened) (keyword :: opening :: (ts ++ closing :: us))
  | forLoop {keyword opening initial ts test us step vs body opened ws}
      (keyed : keyword.is .keyword "for" = true) (opens : opening.kind = .leftParen)
      (first : Derives (.initial initial) ts) (tested : Derives (.clause .semicolon test) us)
      (stepped : Derives (.clause .rightParen step) vs) (repeated : Derives (.statement body opened) ws) :
      Derives (.statement (Stmt.desugarFor initial test step body) opened)
        (keyword :: opening :: (ts ++ (us ++ (vs ++ ws))))
  | variableDeclaration {var initial ts} (declared : Derives (.variable var initial) ts) :
      Derives (.declaration (.declare var initial) false) ts
  | function {keyword name opening params ts} {closing start : Token} {body us} {brace : Token}
      (keyed : keyword.is .keyword "func" = true) (kind : name.kind = .identifier)
      (opens : opening.kind = .leftParen) (given : Derives (.parameters params) ts)
      (closes : closing.kind = .rightParen) (starts : start.kind = .leftBrace)
      (inner : Derives (.body body) us) (ends : brace.kind = .rightBrace) :
      Derives (.declaration (.function name params body) false)
        (keyword :: name :: opening :: (ts ++ closing :: start :: (us ++ [brace])))
  | statement {st opened ts} (plain : Derives (.statement st opened) ts) :
      Derives (.declaration st opened) ts
  | emptyBody : Derives (.body []) []
  | nextInBody {st opened ts ss us} (first : Derives (.declaration st opened) ts)
      (further : Derives (.body ss) us) : Derives (.body (st :: ss)) (ts ++ us)

/-! ## First tokens -/

/-- Whether there is a next token, and it satisfies `p`. -/
def starts (p : Token → Bool) : List Token → Bool
  | [] => false
  | t :: _ => !t.isEnd && p t

theorem starts_append {p : Token → Bool} {ts : List Token} (first : starts p ts = true)
    (us : List Token) : starts p (ts ++ us) = true := by
  cases ts with
  | nil => cases first
  | cons t ts => exact first

theorem starts_mono {p q : Token → Bool} (weaker : ∀ t, p t = true → q t = true) {ts : List Token}
    (first : starts p ts = true) : starts q ts = true := by
  cases ts with
  | nil => cases first
  | cons t ts =>
    simp only [starts, Bool.and_eq_true] at first ⊢
    exact ⟨first.1, weaker t first.2⟩

/-- A list that starts one way does not start another way. -/
theorem starts_eq_false {p q : Token → Bool} (apart : ∀ t, p t = true → q t = false) {ts : List Token}
    (first : starts p ts = true) : starts q ts = false := by
  cases ts with
  | nil => rfl
  | cons t ts =>
    simp only [starts, Bool.and_eq_true] at first ⊢
    rw [apart t first.2, Bool.and_false]

/-- Whether a literal, a name, or an expression in parentheses can start with the token. -/
def startsPrimary (t : Token) : Bool :=
  t.kind ∈ [.boolLiteral, .intLiteral, .floatLiteral, .stringLiteral, .identifier, .leftParen]

/-- Whether an expression can start with the token. -/
def startsExpression (t : Token) : Bool :=
  startsPrimary t || isSign t

/-- Whether a statement that declares nothing can start with the token. -/
def startsStatement (t : Token) : Bool :=
  startsExpression t || t.kind == .leftBrace ||
    t.kind == .keyword && t.text ∈ ["if", "while", "for", "screenit", "return", "break"]

/-- Whether a declaration can start with the token. -/
def startsDeclaration (t : Token) : Bool :=
  startsStatement t || t.is .keyword "func" || t.is .keyword "var"

/-- Whether a spelling of the phrase, if it is not empty, can start as `ts` does. -/
def Phrase.Starts : Phrase → List Token → Prop
  | .primary _, ts => starts startsPrimary ts = true
  | .operand _, ts | .arithmetic _, ts | .comparison _, ts | .expression _, ts | .argumentList _, ts
  | .effect _, ts => starts startsExpression ts = true
  | .parameterList _, ts => starts (fun t => t.kind == .identifier) ts = true
  | .variable _ _, ts => starts (fun t => t.is .keyword "var") ts = true
  | .statement _ _, ts => starts startsStatement ts = true
  | .declaration _ _, ts => starts startsDeclaration ts = true
  | .arguments _, _ | .parameters _, _ | .clause _ _, _ | .initial _, _ | .body _, _ => True

theorem Derives.starts {p : Phrase} {ts : List Token} (derived : Derives p ts) : p.Starts ts := by
  induction derived with
  | literal kind =>
    obtain kind | kind | kind | kind := isLiteral_iff.mp kind <;>
      simp [Phrase.Starts, Grammar.starts, startsPrimary, Token.isEnd, kind]
  | sign kind =>
    have is := kind
    simp only [isSign, Bool.or_eq_true, Token.is_iff] at is
    obtain ⟨is, _⟩ | ⟨is, _⟩ := is <;>
      simp [Phrase.Starts, Grammar.starts, startsExpression, Token.isEnd, is, kind]
  | name kind | group kind | call kind | assigned kind | lastParameter kind | nextParameter kind
  | block kind =>
    simp [Phrase.Starts, Grammar.starts, startsPrimary, startsExpression, startsStatement, Token.isEnd, kind]
  | unset kind | set kind | print kind | ret kind | brk kind | ifThen kind | ifElse kind
  | whileLoop kind | forLoop kind | function kind =>
    obtain ⟨kind, text⟩ := Token.is_iff.mp kind
    simp [Phrase.Starts, Grammar.starts, startsStatement, startsDeclaration, Token.isEnd, Token.is, kind,
      text]
  | primary _ ih =>
    refine starts_mono (fun t first => ?_) ih
    simp [startsExpression, first]
  | operand _ ih | arithmetic _ ih | comparison _ ih | lastArgument _ ih => exact ih
  | joined _ _ _ ih _ | compared _ _ _ ih _ | nextArgument _ _ _ ih _ | effect _ _ ih =>
    exact starts_append ih _
  | effectStatement _ ih =>
    refine starts_mono (fun t first => ?_) ih
    simp [startsStatement, first]
  | statement _ ih =>
    refine starts_mono (fun t first => ?_) ih
    simp [startsDeclaration, first]
  | variableDeclaration _ ih =>
    refine starts_mono (fun t first => ?_) ih
    simp [startsDeclaration, first]
  | noArguments | someArguments | noParameters | someParameters | noClause | someClause | noInitial
  | variableInitial | effectInitial | emptyBody | nextInBody => trivial

theorem length_pos_of_starts {p : Token → Bool} {ts : List Token} (first : starts p ts = true) :
    0 < ts.length := by
  cases ts with
  | nil => cases first
  | cons => exact Nat.zero_lt_succ _

/-- No spelling has an end token. -/
theorem Derives.isEnd_eq_false {p : Phrase} {ts : List Token} (derived : Derives p ts) :
    ∀ t ∈ ts, t.isEnd = false := by
  induction derived <;> grind [Token.isEnd, Token.is_iff, isSign, isLiteral_iff]

/-! ## Programs -/

/-- The tokens spell the program: stray tokens are left out where a statement might start, and in
    front of the end. -/
inductive Spells : List Token → List Stmt → Prop where
  | done : Spells [] []
  | stray {t ts ss} (inside : t.isEnd = false) (stray : Parser.isStray t = true)
      (further : Spells ts ss) : Spells (t :: ts) ss
  | next {t us st opened ts ss} (kept : Parser.isStray t = false)
      (first : Derives (.declaration st opened) (t :: us)) (further : Spells ts ss) :
      Spells (t :: us ++ ts) (st :: ss)

theorem Spells.isEnd_eq_false {ts : List Token} {ss : List Stmt} (spells : Spells ts ss) :
    ∀ t ∈ ts, t.isEnd = false := by
  induction spells with
  | done => exact nofun
  | stray inside _ _ ih => exact List.forall_mem_cons.mpr ⟨inside, ih⟩
  | next _ first _ ih => exact List.forall_mem_append.mpr ⟨first.isEnd_eq_false, ih⟩

end Grammar

/-! ## Shapes of trees -/

namespace Expr

/-- How loosely the operator of an expression binds. -/
def rank : Expr → Nat
  | .binary _ op _ => if op.kind = .arithmetic then 1 else 2
  | .assign _ _ => 3
  | .unary _ _ | .literal _ | .name _ | .call _ _ | .group _ => 0

mutual

/-- Tokens have the kinds that belong to their places, and the operands of an operator bind as
    tightly as its level asks for. -/
def shaped : Expr → Bool
  | .binary left op right =>
    left.shaped && right.shaped &&
      (op.kind == .arithmetic && left.rank ≤ 1 && right.rank ≤ 0 ||
        op.kind == .compare && left.rank ≤ 2 && right.rank ≤ 1)
  | .unary op operand => Grammar.isSign op && operand.rank ≤ 0 && operand.shaped
  | .literal value => Grammar.isLiteral value
  | .name var => var.kind == .identifier
  | .assign target value => target.kind == .identifier && value.shaped
  | .call callee arguments =>
    callee.kind == .identifier && arguments.length ≤ Parser.maxArguments && listShaped arguments
  | .group inner => inner.shaped

def listShaped : List Expr → Bool
  | [] => true
  | e :: es => e.shaped && listShaped es

end

end Expr

namespace Stmt

/-- Whether a statement can be a branch or the body of a loop. -/
def isBranch : Stmt → Bool
  | .declare _ _ | .function _ _ _ => false
  | _ => true

/-- Whether a statement can be the first clause of a counting loop. -/
def isInitial : Stmt → Bool
  | .declare _ _ | .expression _ => true
  | _ => false

/-- Whether a statement ends in a conditional without a second branch. -/
def endsOpen : Stmt → Bool
  | .ifElse _ _ none => true
  | .ifElse _ _ (some no) => no.endsOpen
  | .whileLoop _ body => body.endsOpen
  | .forLoop _ _ _ body => body.endsOpen
  | _ => false

mutual

/-- Tokens have the kinds that belong to their places, expressions are shaped, no branch and no body
    of a loop declares anything, and no first branch ends open if there is a second one. -/
def shaped : Stmt → Bool
  | .expression value => value.shaped
  | .print value => value.shaped
  | .declare var initial => var.kind == .identifier && initial.all Expr.shaped
  | .block body => listShaped body
  | .ifElse test yes no =>
    test.shaped && yes.isBranch && yes.shaped && branchShaped no && (no.isNone || !yes.endsOpen)
  | .whileLoop test body => test.shaped && body.isBranch && body.shaped
  | .forLoop none test step body =>
    test.all Expr.shaped && step.all Expr.shaped && body.isBranch && body.shaped
  | .forLoop (some initial) test step body =>
    initial.isInitial && initial.shaped && test.all Expr.shaped && step.all Expr.shaped &&
      body.isBranch && body.shaped
  | .function name params body =>
    name.kind == .identifier && params.all (fun p => p.kind == .identifier) &&
      params.length ≤ Parser.maxArguments && listShaped body
  | .ret keyword value => keyword.is .keyword "return" && value.all Expr.shaped
  | .brk keyword => keyword.is .keyword "break"

def listShaped : List Stmt → Bool
  | [] => true
  | st :: ss => st.shaped && listShaped ss

/-- The same for a branch that may be absent. -/
def branchShaped : Option Stmt → Bool
  | none => true
  | some st => st.isBranch && st.shaped

end

end Stmt

namespace Grammar

def Phrase.Shaped : Phrase → Prop
  | .primary e | .operand e => e.shaped = true ∧ e.rank = 0
  | .arithmetic e => e.shaped = true ∧ e.rank ≤ 1
  | .comparison e => e.shaped = true ∧ e.rank ≤ 2
  | .expression e | .effect e => e.shaped = true
  | .argumentList es => Expr.listShaped es = true
  | .arguments es => Expr.listShaped es = true ∧ es.length ≤ Parser.maxArguments
  | .parameterList names => names.all (fun p => p.kind == .identifier) = true
  | .parameters names =>
    names.all (fun p => p.kind == .identifier) = true ∧ names.length ≤ Parser.maxArguments
  | .clause _ e => e.all Expr.shaped = true
  | .variable var value => var.kind = .identifier ∧ value.all Expr.shaped = true
  | .initial st => st.all Stmt.shaped = true
  | .statement st opened => st.shaped = true ∧ st.isBranch = true ∧ (st.endsOpen = true → opened = true)
  | .declaration st _ => st.shaped = true
  | .body ss => Stmt.listShaped ss = true

theorem shaped_desugarFor {initial : Option Stmt} {test step : Option Expr} {body : Stmt} {opened : Bool}
    (first : initial.all Stmt.shaped = true) (tested : test.all Expr.shaped = true)
    (stepped : step.all Expr.shaped = true) (repeated : (Phrase.statement body opened).Shaped) :
    (Phrase.statement (Stmt.desugarFor initial test step body) opened).Shaped := by
  obtain ⟨shaped, branch, openly⟩ := repeated
  have condition : (test.getD Stmt.always).shaped = true := by
    cases test with
    | none => rfl
    | some test => exact tested
  cases initial <;> cases step <;>
    simp_all [Phrase.Shaped, Stmt.desugarFor, Stmt.shaped, Stmt.isBranch, Stmt.endsOpen, Stmt.listShaped]

/-- What has a spelling is shaped. -/
theorem Derives.shaped {p : Phrase} {ts : List Token} (derived : Derives p ts) : p.Shaped := by
  induction derived with
  | literal kind | name kind => simpa [Phrase.Shaped, Expr.shaped, Expr.rank] using kind
  | group _ _ _ ih => exact ⟨ih, rfl⟩
  | call kind _ _ _ ih => exact ⟨by simp [Expr.shaped, kind, ih.1, ih.2], rfl⟩
  | sign sign _ ih => exact ⟨by simp only [Expr.shaped, sign, ih.1, ih.2]; rfl, rfl⟩
  -- an expression of one level is one of the next
  | primary _ ih => exact ih
  | operand _ ih => exact ⟨ih.1, Nat.le_trans (Nat.le_of_eq ih.2) (Nat.zero_le 1)⟩
  | arithmetic _ ih => exact ⟨ih.1, Nat.le_succ_of_le ih.2⟩
  | comparison _ ih => exact ih.1
  | joined _ kind _ left right =>
    exact ⟨by simp [Expr.shaped, kind, left.1, left.2, right.1, right.2], by simp [Expr.rank, kind]⟩
  | compared _ kind _ left right =>
    exact ⟨by simp [Expr.shaped, kind, left.1, left.2, right.1, right.2], by simp [Expr.rank, kind]⟩
  | assigned kind _ _ ih => simpa [Phrase.Shaped, Expr.shaped, kind] using ih
  | lastArgument _ ih => simpa [Phrase.Shaped, Expr.listShaped] using ih
  | nextArgument _ _ _ value further =>
    simpa [Phrase.Shaped, Expr.listShaped] using ⟨value, further⟩
  | noArguments => exact ⟨rfl, Nat.zero_le _⟩
  | someArguments _ few ih => exact ⟨ih, few⟩
  | lastParameter kind => simp [Phrase.Shaped, kind]
  | nextParameter kind _ _ ih =>
    simpa [Phrase.Shaped, kind] using ih
  | noParameters => exact ⟨rfl, Nat.zero_le _⟩
  | someParameters _ few ih => exact ⟨ih, few⟩
  | noClause | noInitial | emptyBody => rfl
  | someClause _ _ _ ih | effect _ _ ih | effectInitial _ ih => exact ih
  | unset _ kind _ => exact ⟨kind, rfl⟩
  | set _ kind _ _ _ ih => exact ⟨kind, ih⟩
  | variableInitial _ ih | variableDeclaration _ ih =>
    simp [Phrase.Shaped, Stmt.shaped, ih.1, ih.2]
  | effectStatement _ ih | print _ _ _ ih | block _ _ _ ih => exact ⟨ih, rfl, nofun⟩
  | ret keyed _ ih => exact ⟨by simp [Stmt.shaped, keyed, show _ = true from ih], rfl, nofun⟩
  | brk keyed _ => exact ⟨keyed, rfl, nofun⟩
  | ifThen _ _ _ _ _ test yes =>
    refine ⟨?_, rfl, fun _ => rfl⟩
    simp [Stmt.shaped, Stmt.branchShaped, show _ = true from test, yes.1, yes.2.1]
  | ifElse _ _ _ _ _ _ _ test yes no =>
    have closed := Bool.eq_false_iff.mpr fun opened => Bool.false_ne_true (yes.2.2 opened)
    refine ⟨?_, rfl, no.2.2⟩
    simp [Stmt.shaped, Stmt.branchShaped, show _ = true from test, yes.1, yes.2.1, closed, no.1, no.2.1]
  | whileLoop _ _ _ _ _ test body =>
    refine ⟨?_, rfl, body.2.2⟩
    simp [Stmt.shaped, show _ = true from test, body.1, body.2.1]
  | forLoop _ _ _ _ _ _ first tested stepped repeated =>
    exact shaped_desugarFor first tested stepped repeated
  | function _ kind _ _ _ _ _ _ params body =>
    simp only [Phrase.Shaped, Stmt.shaped, kind, params.1, params.2, show _ = true from body]
    rfl
  | statement _ ih => exact ih.1
  | nextInBody _ _ first further => simpa [Phrase.Shaped, Stmt.listShaped] using ⟨first, further⟩

theorem Spells.shaped {ts : List Token} {ss : List Stmt} (spells : Spells ts ss) :
    Stmt.listShaped ss = true := by
  induction spells with
  | done => rfl
  | stray _ _ _ ih => exact ih
  | next _ first _ ih => simpa [Stmt.listShaped] using ⟨first.shaped, ih⟩

end Grammar

end ImpCompiler
