import ImpCompiler.Proofs.Tree.Completeness

/-! # Writing programs down

`write` gives the tokens of a tree: those that the tree keeps, and around them the punctuation and the
keywords that it does not.  If the tree is shaped, then the tokens are a spelling of it, and the
parser reads the tree back (`parseTokens_write`).  A counting loop is written as such, and read as the
block and the loop that it stands for. -/

namespace ImpCompiler

open Grammar

/-! ## Tokens of trees -/

namespace Expr

mutual

def write : Expr → List Token
  | .binary left op right => left.write ++ op :: right.write
  | .unary op operand => op :: operand.write
  | .literal value => [value]
  | .name var => [var]
  | .assign target value => target :: .synthetic .operator "=" :: value.write
  | .call callee arguments =>
    callee :: .synthetic .leftParen "(" :: (writeArguments arguments ++ [.synthetic .rightParen ")"])
  | .group inner => .synthetic .leftParen "(" :: (inner.write ++ [.synthetic .rightParen ")"])

def writeArguments : List Expr → List Token
  | [] => []
  | e :: es => e.write ++ writeFurther es

/-- Arguments that follow another one. -/
def writeFurther : List Expr → List Token
  | [] => []
  | e :: es => .synthetic .comma "," :: (e.write ++ writeFurther es)

end

/-- An expression that may be left out, and the token behind it. -/
def writeClause (e : Option Expr) (ending : Token) : List Token :=
  match e with
  | some e => e.write ++ [ending]
  | none => [ending]

end Expr

/-- The names of parameters with commas between them. -/
def writeParameters : List Token → List Token
  | [] => []
  | [param] => [param]
  | param :: params => param :: .synthetic .comma "," :: writeParameters params

namespace Stmt

mutual

def write : Stmt → List Token
  | .expression value => value.write ++ [.synthetic .semicolon ";"]
  | .print value => .synthetic .keyword "screenit" :: (value.write ++ [.synthetic .semicolon ";"])
  | .declare var (some initial) =>
    .synthetic .keyword "var" :: var :: .synthetic .operator "=" ::
      (initial.write ++ [.synthetic .semicolon ";"])
  | .declare var none => [.synthetic .keyword "var", var, .synthetic .semicolon ";"]
  | .block body =>
    .synthetic .leftBrace "\x7b" :: (writeList body ++ [.synthetic .rightBrace "\x7d"])
  | .ifElse test yes none =>
    .synthetic .keyword "if" :: .synthetic .leftParen "(" ::
      (test.write ++ .synthetic .rightParen ")" :: yes.write)
  | .ifElse test yes (some no) =>
    .synthetic .keyword "if" :: .synthetic .leftParen "(" ::
      (test.write ++ .synthetic .rightParen ")" :: (yes.write ++ .synthetic .keyword "else" :: no.write))
  | .whileLoop test body =>
    .synthetic .keyword "while" :: .synthetic .leftParen "(" ::
      (test.write ++ .synthetic .rightParen ")" :: body.write)
  | .forLoop none test step body =>
    .synthetic .keyword "for" :: .synthetic .leftParen "(" :: ([.synthetic .semicolon ";"] ++
      (Expr.writeClause test (.synthetic .semicolon ";") ++
        (Expr.writeClause step (.synthetic .rightParen ")") ++ body.write)))
  | .forLoop (some initial) test step body =>
    .synthetic .keyword "for" :: .synthetic .leftParen "(" :: (initial.write ++
      (Expr.writeClause test (.synthetic .semicolon ";") ++
        (Expr.writeClause step (.synthetic .rightParen ")") ++ body.write)))
  | .function name params body =>
    .synthetic .keyword "func" :: name :: .synthetic .leftParen "(" :: (writeParameters params ++
      .synthetic .rightParen ")" :: .synthetic .leftBrace "\x7b" ::
        (writeList body ++ [.synthetic .rightBrace "\x7d"]))
  | .ret keyword value => keyword :: Expr.writeClause value (.synthetic .semicolon ";")
  | .brk keyword => [keyword, .synthetic .semicolon ";"]

def writeList : List Stmt → List Token
  | [] => []
  | st :: ss => st.write ++ writeList ss

end

/-! ## Counting loops -/

mutual

/-- The statement with every counting loop in it said as a block and a loop. -/
def desugared : Stmt → Stmt
  | .block body => .block (listDesugared body)
  | .ifElse test yes no => .ifElse test yes.desugared (optionDesugared no)
  | .whileLoop test body => .whileLoop test body.desugared
  | .forLoop initial test step body =>
    desugarFor (optionDesugared initial) test step body.desugared
  | .function name params body => .function name params (listDesugared body)
  | .expression value => .expression value
  | .print value => .print value
  | .declare var initial => .declare var initial
  | .ret keyword value => .ret keyword value
  | .brk keyword => .brk keyword

def listDesugared : List Stmt → List Stmt
  | [] => []
  | st :: ss => st.desugared :: listDesugared ss

def optionDesugared : Option Stmt → Option Stmt
  | none => none
  | some st => some st.desugared

end

mutual

/-- Whether there is no counting loop in the statement. -/
def sugarFree : Stmt → Bool
  | .block body => listSugarFree body
  | .ifElse _ yes no => yes.sugarFree && optionSugarFree no
  | .whileLoop _ body => body.sugarFree
  | .forLoop _ _ _ _ => false
  | .function _ _ body => listSugarFree body
  | .expression _ => true
  | .print _ => true
  | .declare _ _ => true
  | .ret _ _ => true
  | .brk _ => true

def listSugarFree : List Stmt → Bool
  | [] => true
  | st :: ss => st.sugarFree && listSugarFree ss

def optionSugarFree : Option Stmt → Bool
  | none => true
  | some st => st.sugarFree

end

mutual

theorem desugared_eq : ∀ st : Stmt, st.sugarFree = true → st.desugared = st
  | .block body, free => by rw [desugared, listDesugared_eq body free]
  | .ifElse test yes no, free => by
    simp only [sugarFree, Bool.and_eq_true] at free
    rw [desugared, desugared_eq yes free.1, optionDesugared_eq no free.2]
  | .whileLoop test body, free => by rw [desugared, desugared_eq body free]
  | .function name params body, free => by rw [desugared, listDesugared_eq body free]
  | .expression _, _ => rfl
  | .print _, _ => rfl
  | .declare _ _, _ => rfl
  | .ret _ _, _ => rfl
  | .brk _, _ => rfl

theorem listDesugared_eq : ∀ ss : List Stmt, listSugarFree ss = true → listDesugared ss = ss
  | [], _ => rfl
  | st :: ss, free => by
    simp only [listSugarFree, Bool.and_eq_true] at free
    rw [listDesugared, desugared_eq st free.1, listDesugared_eq ss free.2]

theorem optionDesugared_eq : ∀ st : Option Stmt, optionSugarFree st = true → optionDesugared st = st
  | none, _ => rfl
  | some st, free => by rw [optionDesugared, desugared_eq st free]

end

end Stmt

/-! ## Expressions -/

namespace Grammar

/-- The phrase for expressions whose operator binds at most as loosely as `rank` says. -/
def phraseAt : Nat → Expr → Phrase
  | 0, e => .operand e
  | 1, e => .arithmetic e
  | 2, e => .comparison e
  | _ + 3, e => .expression e

theorem derives_looser {m n : Nat} (tighter : m ≤ n) {e : Expr} {ts : List Token}
    (derived : Derives (phraseAt m e) ts) : Derives (phraseAt n e) ts := by
  induction tighter with
  | refl => exact derived
  | @step n _ ih =>
    match n, ih with
    | 0, ih => exact .operand ih
    | 1, ih => exact .arithmetic ih
    | 2, ih => exact .comparison ih
    | _ + 3, ih => exact ih

theorem rank_le (e : Expr) : e.rank ≤ 3 := by
  cases e with
  | binary _ op _ =>
    rw [Expr.rank]
    split <;> omega
  | _ => simp [Expr.rank]

mutual

/-- What is written for an expression spells it at the level of its operator. -/
theorem derives_write : ∀ e : Expr, e.shaped = true → Derives (phraseAt e.rank e) e.write
  | .binary left op right, shaped => by
    simp only [Expr.shaped, Bool.and_eq_true, Bool.or_eq_true, beq_iff_eq, decide_eq_true_eq] at shaped
    obtain ⟨⟨first, second⟩, ⟨⟨kind, loose⟩, tight⟩ | ⟨⟨kind, loose⟩, tight⟩⟩ := shaped
    · have derived := Derives.joined (derives_looser loose (derives_write left first)) kind
        (derives_looser tight (derives_write right second))
      rw [Expr.rank, if_pos kind, Expr.write]
      exact derived
    · have derived := Derives.compared (derives_looser loose (derives_write left first)) kind
        (derives_looser tight (derives_write right second))
      rw [Expr.rank, if_neg (by simp [kind]), Expr.write]
      exact derived
  | .unary op operand, shaped => by
    simp only [Expr.shaped, Bool.and_eq_true, decide_eq_true_eq] at shaped
    exact .sign shaped.1.1 (derives_looser shaped.1.2 (derives_write operand shaped.2))
  | .literal value, shaped => .primary (.literal shaped)
  | .name var, shaped => .primary (.name (eq_of_beq shaped))
  | .assign target value, shaped => by
    simp only [Expr.shaped, Bool.and_eq_true, beq_iff_eq] at shaped
    exact .assigned shaped.1 rfl (derives_looser (rank_le value) (derives_write value shaped.2))
  | .call callee arguments, shaped => by
    simp only [Expr.shaped, Bool.and_eq_true, beq_iff_eq, decide_eq_true_eq] at shaped
    obtain ⟨⟨kind, few⟩, listed⟩ := shaped
    exact .call kind rfl (derives_writeArguments arguments listed few) rfl
  | .group inner, shaped =>
    .primary (.group rfl (derives_looser (rank_le inner) (derives_write inner shaped)) rfl)

theorem derives_writeArguments : ∀ es : List Expr, Expr.listShaped es = true →
    es.length ≤ Parser.maxArguments → Derives (.arguments es) (Expr.writeArguments es)
  | [], _, _ => .noArguments
  | e :: es, shaped, few => by
    simp only [Expr.listShaped, Bool.and_eq_true] at shaped
    have first := derives_looser (rank_le e) (derives_write e shaped.1)
    exact .someArguments (derives_writeFurther es shaped.2 e e.write first) few

theorem derives_writeFurther : ∀ es : List Expr, Expr.listShaped es = true → ∀ e ts,
    Derives (.expression e) ts → Derives (.argumentList (e :: es)) (ts ++ Expr.writeFurther es)
  | [], _, e, ts, first => by simpa [Expr.writeFurther] using Derives.lastArgument first
  | e' :: es, shaped, e, ts, first => by
    simp only [Expr.listShaped, Bool.and_eq_true] at shaped
    have second := derives_looser (rank_le e') (derives_write e' shaped.1)
    exact .nextArgument first rfl (derives_writeFurther es shaped.2 e' e'.write second)

end

theorem derives_expression {e : Expr} (shaped : e.shaped = true) : Derives (.expression e) e.write :=
  derives_looser (rank_le e) (derives_write e shaped)

theorem derives_writeClause {e : Option Expr} (shaped : e.all Expr.shaped = true) {ending : Kind}
    {text : String} (inside : ending ≠ .endOfFile) :
    Derives (.clause ending e) (Expr.writeClause e (.synthetic ending text)) := by
  have within : (Token.synthetic ending text).isEnd = false := beq_false_of_ne inside
  cases e with
  | none => exact .noClause rfl within
  | some e => exact .someClause (derives_expression shaped) rfl within

theorem derives_writeParameters {params : List Token} (kinds : params.all (fun p => p.kind == .identifier) = true)
    (few : params.length ≤ Parser.maxArguments) : Derives (.parameters params) (writeParameters params) := by
  have listed : ∀ param params, (param :: params).all (fun p => p.kind == .identifier) = true →
      Derives (.parameterList (param :: params)) (writeParameters (param :: params)) := by
    intro param params kinds
    induction params generalizing param with
    | nil => exact .lastParameter (by simpa using kinds)
    | cons next params ih =>
      simp only [List.all_cons, Bool.and_eq_true, beq_iff_eq] at kinds ih
      exact .nextParameter kinds.1 rfl (ih next kinds.2)
  cases params with
  | nil => exact .noParameters
  | cons param params => exact .someParameters (listed param params kinds) few

/-! ## Statements -/

theorem derives_writeVariable {var : Token} {initial : Option Expr} (kind : var.kind = .identifier)
    (shaped : initial.all Expr.shaped = true) :
    Derives (.variable var initial) (Stmt.write (.declare var initial)) := by
  cases initial with
  | none =>
    rw [Stmt.write]
    exact .unset rfl kind rfl
  | some initial =>
    rw [Stmt.write]
    exact .set rfl kind rfl (derives_expression shaped) rfl

/-- The first clause of a counting loop is written as the statement that it is. -/
theorem derives_writeInitial {st : Stmt} (initial : st.isInitial = true) (shaped : st.shaped = true) :
    Derives (.initial (some st.desugared)) st.write := by
  cases st with
  | declare var value =>
    simp only [Stmt.shaped, Bool.and_eq_true, beq_iff_eq] at shaped
    exact .variableInitial (derives_writeVariable shaped.1 shaped.2)
  | expression e =>
    rw [Stmt.write]
    exact .effectInitial (.effect (derives_expression shaped) rfl)
  | _ => cases initial

mutual

theorem derives_writeStatement : ∀ st : Stmt, st.shaped = true → st.isBranch = true →
    Derives (.statement st.desugared st.endsOpen) st.write
  | .expression e, shaped, _ => by
    rw [Stmt.write]
    exact .effectStatement (.effect (derives_expression shaped) rfl)
  | .print e, shaped, _ => by
    rw [Stmt.write]
    exact .print rfl (derives_expression shaped) rfl
  | .block body, shaped, _ => by
    rw [Stmt.write]
    exact .block rfl (derives_writeList body shaped) rfl
  | .ifElse test yes none, shaped, _ => by
    simp only [Stmt.shaped, Bool.and_eq_true] at shaped
    obtain ⟨⟨⟨⟨tested, branch⟩, first⟩, _⟩, _⟩ := shaped
    rw [Stmt.write]
    exact .ifThen rfl rfl (derives_expression tested) rfl (derives_writeStatement yes first branch)
  | .ifElse test yes (some no), shaped, _ => by
    simp only [Stmt.shaped, Stmt.branchShaped, Bool.and_eq_true, Option.isNone_some, Bool.false_or,
      Bool.not_eq_true'] at shaped
    obtain ⟨⟨⟨⟨tested, branch⟩, first⟩, branch', second⟩, closed⟩ := shaped
    have derived := derives_writeStatement yes first branch
    rw [closed] at derived
    rw [Stmt.write]
    exact .ifElse rfl rfl (derives_expression tested) rfl derived rfl
      (derives_writeStatement no second branch')
  | .whileLoop test body, shaped, _ => by
    simp only [Stmt.shaped, Bool.and_eq_true] at shaped
    obtain ⟨⟨tested, branch⟩, repeated⟩ := shaped
    rw [Stmt.write]
    exact .whileLoop rfl rfl (derives_expression tested) rfl (derives_writeStatement body repeated branch)
  | .forLoop none test step body, shaped, _ => by
    simp only [Stmt.shaped, Bool.and_eq_true] at shaped
    obtain ⟨⟨⟨tested, stepped⟩, branch⟩, repeated⟩ := shaped
    rw [Stmt.write]
    exact .forLoop rfl rfl (.noInitial rfl) (derives_writeClause tested nofun)
      (derives_writeClause stepped nofun) (derives_writeStatement body repeated branch)
  | .forLoop (some initial) test step body, shaped, _ => by
    simp only [Stmt.shaped, Bool.and_eq_true] at shaped
    obtain ⟨⟨⟨⟨⟨simple, first⟩, tested⟩, stepped⟩, branch⟩, repeated⟩ := shaped
    rw [Stmt.write]
    exact .forLoop rfl rfl (derives_writeInitial simple first) (derives_writeClause tested nofun)
      (derives_writeClause stepped nofun) (derives_writeStatement body repeated branch)
  | .ret keyword value, shaped, _ => by
    simp only [Stmt.shaped, Bool.and_eq_true] at shaped
    rw [Stmt.write]
    exact .ret shaped.1 (derives_writeClause shaped.2 nofun)
  | .brk keyword, shaped, _ => by
    rw [Stmt.write]
    exact .brk shaped rfl

theorem derives_writeDeclaration : ∀ st : Stmt, st.shaped = true →
    Derives (.declaration st.desugared st.endsOpen) st.write
  | .declare var initial, shaped => by
    simp only [Stmt.shaped, Bool.and_eq_true, beq_iff_eq] at shaped
    exact .variableDeclaration (derives_writeVariable shaped.1 shaped.2)
  | .function name params body, shaped => by
    simp only [Stmt.shaped, Bool.and_eq_true, beq_iff_eq, decide_eq_true_eq] at shaped
    obtain ⟨⟨⟨kind, kinds⟩, few⟩, inner⟩ := shaped
    rw [Stmt.write]
    exact .function rfl kind rfl (derives_writeParameters kinds few) rfl rfl
      (derives_writeList body inner) rfl
  | .expression e, shaped => .statement (derives_writeStatement (.expression e) shaped rfl)
  | .print e, shaped => .statement (derives_writeStatement (.print e) shaped rfl)
  | .block body, shaped => .statement (derives_writeStatement (.block body) shaped rfl)
  | .ifElse test yes no, shaped => .statement (derives_writeStatement (.ifElse test yes no) shaped rfl)
  | .whileLoop test body, shaped => .statement (derives_writeStatement (.whileLoop test body) shaped rfl)
  | .forLoop initial test step body, shaped =>
    .statement (derives_writeStatement (.forLoop initial test step body) shaped rfl)
  | .ret keyword value, shaped => .statement (derives_writeStatement (.ret keyword value) shaped rfl)
  | .brk keyword, shaped => .statement (derives_writeStatement (.brk keyword) shaped rfl)

theorem derives_writeList : ∀ ss : List Stmt, Stmt.listShaped ss = true →
    Derives (.body (Stmt.listDesugared ss)) (Stmt.writeList ss)
  | [], _ => .emptyBody
  | st :: ss, shaped => by
    simp only [Stmt.listShaped, Bool.and_eq_true] at shaped
    rw [Stmt.writeList]
    exact .nextInBody (derives_writeDeclaration st shaped.1) (derives_writeList ss shaped.2)

end

/-- What is written for a program spells it, if no statement starts with a token that would be left
    out. -/
theorem spells_writeList {ss : List Stmt} (shaped : Stmt.listShaped ss = true)
    (visible : ∀ st ∈ ss, ∀ t ∈ st.write.head?, t.text ≠ "") :
    Spells (Stmt.writeList ss) (Stmt.listDesugared ss) := by
  induction ss with
  | nil => exact .done
  | cons st ss ih =>
    simp only [Stmt.listShaped, Bool.and_eq_true] at shaped
    obtain ⟨first, further⟩ := List.forall_mem_cons.mp visible
    have derived := derives_writeDeclaration st shaped.1
    rw [Stmt.writeList, Stmt.listDesugared]
    cases written : st.write with
    | nil =>
      rw [written] at derived
      cases derived.starts
    | cons t us =>
      rw [written] at derived first
      have kept := Parser.isStray_eq_false_of_declaration derived (first t rfl)
      exact .next kept derived (ih shaped.2 further)

end Grammar

/-- The parser reads every shaped program as it is written, with its counting loops said as blocks and
    loops.  So it reads a program without such loops back as it is, and a single loop as the block or
    loop that it stands for. -/
theorem parseTokens_write :
    (∀ statements : List Stmt, Stmt.listShaped statements = true →
      (∀ st ∈ statements, ∀ t ∈ st.write.head?, t.text ≠ "") →
      parseTokens (Stmt.writeList statements) = .ok (Stmt.listDesugared statements)) ∧
    (∀ statements : List Stmt, Stmt.listShaped statements = true → Stmt.listSugarFree statements = true →
      (∀ st ∈ statements, ∀ t ∈ st.write.head?, t.text ≠ "") →
      parseTokens (Stmt.writeList statements) = .ok statements) ∧
    ∀ initial test step body, (Stmt.forLoop initial test step body).shaped = true →
      Stmt.optionSugarFree initial = true → body.sugarFree = true →
      parseTokens (Stmt.write (.forLoop initial test step body)) =
        .ok [Stmt.desugarFor initial test step body] := by
  have parsed : ∀ statements : List Stmt, Stmt.listShaped statements = true →
      (∀ st ∈ statements, ∀ t ∈ st.write.head?, t.text ≠ "") →
      parseTokens (Stmt.writeList statements) = .ok (Stmt.listDesugared statements) :=
    fun _ shaped visible => parseTokens_of_spells (spells_writeList shaped visible)
  refine ⟨parsed, fun statements shaped free visible => ?_, ?_⟩
  · rw [parsed statements shaped visible, Stmt.listDesugared_eq statements free]
  · intro initial test step body shaped first repeated
    have visible : ∀ t ∈ (Stmt.write (.forLoop initial test step body)).head?, t.text ≠ "" := by
      cases initial <;> simp [Stmt.write, Token.synthetic]
    have alone := parsed [.forLoop initial test step body] (by simpa [Stmt.listShaped] using shaped)
      (by simpa using visible)
    rw [Stmt.writeList, Stmt.writeList, List.append_nil] at alone
    rw [alone, Stmt.listDesugared, Stmt.listDesugared, Stmt.desugared,
      Stmt.optionDesugared_eq initial first, Stmt.desugared_eq body repeated]

/-- A recursive function, a conditional whose second branch ends open, and a counting loop. -/
theorem parseTokens_write_function :
    let x := Token.synthetic .identifier "x"
    let f := Token.synthetic .identifier "f"
    let one := Expr.literal (.synthetic .intLiteral "1")
    let less := Token.synthetic .compare "<"
    let minus := Token.synthetic .arithmetic "-"
    let call := Expr.call f [.assign x one, .unary minus (.group (.binary (.name x) minus one))]
    let statements : List Stmt :=
      [.function f [x] [.ret (.synthetic .keyword "return") (some (.binary call less (.name x)))],
        .declare x (some one),
        .ifElse (.name x) (.block []) (some (.ifElse (.name x) (.print (.name x)) none))]
    let initial : Stmt := .declare x (some one)
    let body : Stmt := .brk (.synthetic .keyword "break")
    parseTokens (Stmt.writeList statements) = .ok statements ∧
    parseTokens (Stmt.write (.forLoop (some initial) none (some (.assign x one)) body)) =
      .ok [.block [initial, .whileLoop Stmt.always (.block [body, .expression (.assign x one)])]] := by
  intro x f one less minus call statements initial body
  constructor
  · exact parseTokens_write.2.1 statements rfl rfl (by decide)
  · exact parseTokens_write.2.2 (some initial) none (some (.assign x one)) body rfl rfl rfl

end ImpCompiler
