import ImpCompiler.Proofs.Tree.Grammar

/-! # The parser reads what the grammar spells

What the parser takes from its input to read an expression or a statement is a spelling of it
(`exprs_take`, `stmts_take`), and nothing is lost between the statements of a program
(`parseTokens_spells`). -/

namespace ImpCompiler

namespace Parser

open Grammar

variable {α β : Type}

/-! ## Taking tokens -/

/-- If the parser reads something from `rest`, then the tokens that it takes for that, what it reads,
    and the tokens that it leaves are related by `Q`. -/
def Takes (p : Parser α) (rest : List Token) (Q : List Token → α → List Token → Prop) : Prop :=
  ∀ a rest', p rest = .ok a rest' → ∃ used, rest = used ++ rest' ∧ Q used a rest'

namespace Takes

variable {p : Parser α} {next : α → Parser β} {rest : List Token}
  {P : List Token → α → List Token → Prop} {Q : List Token → β → List Token → Prop}

theorem mono {P' : List Token → α → List Token → Prop} (takes : Takes p rest P)
    (weaker : ∀ used a rest', P used a rest' → P' used a rest') : Takes p rest P' := by
  intro a rest' run
  obtain ⟨used, split, holds⟩ := takes a rest' run
  exact ⟨used, split, weaker _ _ _ holds⟩

theorem pure {b : β} (holds : Q [] b rest) : Takes (pure b) rest Q := by
  intro _ _ run
  cases run
  exact ⟨[], rfl, holds⟩

theorem failHere (cause : Cause) : Takes (failHere cause) rest Q :=
  fun _ _ run => nomatch run

theorem failAt (t : Token) (cause : Cause) : Takes (failAt t cause) rest Q :=
  fun _ _ run => nomatch run

theorem bind (first : Takes p rest P)
    (second : ∀ used a rest', P used a rest' →
      Takes (next a) rest' fun used' b rest'' => Q (used ++ used') b rest'') :
    Takes (p >>= next) rest Q := by
  intro b rest'' run
  simp only [Bind.bind, EStateM.bind] at run
  split at run
  · rename_i a rest' done
    obtain ⟨used, rfl, holds⟩ := first a rest' done
    obtain ⟨used', rfl, holds'⟩ := second used a _ holds b rest'' run
    exact ⟨used ++ used', (List.append_assoc _ _ _).symm, holds'⟩
  · cases run

theorem map {f : α → β} (takes : Takes p rest fun used a rest' => Q used (f a) rest') :
    Takes (f <$> p) rest Q := by
  intro b rest' run
  simp only [Functor.map, EStateM.map] at run
  split at run
  · rename_i a rest'' done
    cases run
    exact takes a _ done
  · cases run

theorem takeIf {accepts : Token → Bool} {next : Option Token → Parser β}
    (absent : starts accepts rest = false → Takes (next none) rest Q)
    (present : ∀ t rest', t.isEnd = false → accepts t = true → starts accepts rest = true →
      Takes (next (some t)) rest' fun used b rest'' => Q (t :: used) b rest'') :
    Takes (takeIf accepts >>= next) rest Q := by
  intro b rest'' run
  simp only [Bind.bind, EStateM.bind] at run
  cases rest with
  | nil => exact absent rfl b rest'' run
  | cons t behind =>
    simp only [Parser.takeIf] at run
    by_cases taken : (!t.isEnd && accepts t) = true
    · rw [if_pos taken] at run
      have ⟨inside, accepted⟩ : t.isEnd = false ∧ accepts t = true := by simpa using taken
      obtain ⟨used, rfl, holds⟩ := present t behind inside accepted taken b rest'' run
      exact ⟨t :: used, rfl, holds⟩
    · rw [if_neg taken] at run
      exact absent (Bool.eq_false_iff.mpr taken) b rest'' run

theorem accept {kind : Kind} {next : Option Token → Parser β}
    (absent : starts (fun t => t.kind == kind) rest = false → Takes (next none) rest Q)
    (present : ∀ t rest', t.isEnd = false → t.kind = kind →
      Takes (next (some t)) rest' fun used b rest'' => Q (t :: used) b rest'') :
    Takes (accept kind >>= next) rest Q :=
  takeIf absent fun t rest' inside is _ => present t rest' inside (eq_of_beq is)

theorem expect {kind : Kind} {cause : Cause} {next : Token → Parser β}
    (present : ∀ t rest', t.isEnd = false → t.kind = kind →
      Takes (next t) rest' fun used b rest'' => Q (t :: used) b rest'') :
    Takes (expect kind cause >>= next) rest Q := by
  rw [Parser.expect, bind_assoc]
  refine accept (fun _ => ?_) (fun t rest' inside is => ?_)
  · exact bind (failHere cause) fun _ _ _ (absurd : False) => absurd.elim
  · exact present t rest' inside is

theorem nextIs {kind : Kind} {next : Bool → Parser β} (either : ∀ b, Takes (next b) rest Q) :
    Takes (nextIs kind >>= next) rest Q := by
  intro b rest' run
  cases rest with
  | nil => exact either false b rest' run
  | cons t behind => exact either _ b rest' run

theorem get {next : List Token → Parser β} (behind : Takes (next rest) rest Q) :
    Takes (get >>= next) rest Q :=
  behind

end Takes

/-! ## Expressions -/

/-- The only spelling of a name is its token. -/
theorem eq_of_operand_name {t : Token} {ts : List Token} (derived : Derives (.operand (.name t)) ts) :
    ts = [t] ∧ t.kind = .identifier := by
  cases derived with
  | primary plain =>
    cases plain with
    | name kind => exact ⟨rfl, kind⟩

theorem eq_of_comparison_name {t : Token} {ts : List Token}
    (derived : Derives (.comparison (.name t)) ts) : ts = [t] ∧ t.kind = .identifier := by
  cases derived with
  | arithmetic single =>
    cases single with
    | operand single => exact eq_of_operand_name single

/-- What the functions for expressions take within `n` steps. -/
structure ExprsTake (n : Nat) : Prop where
  expression : ∀ rest, Takes (expression n) rest fun used e _ => Derives (.expression e) used
  comparison : ∀ rest, Takes (comparison n) rest fun used e _ => Derives (.comparison e) used
  comparisonRest : ∀ left ts rest, Derives (.comparison left) ts →
    Takes (comparisonRest n left) rest fun used e _ => Derives (.comparison e) (ts ++ used)
  arithmetic : ∀ rest, Takes (arithmetic n) rest fun used e _ => Derives (.arithmetic e) used
  arithmeticRest : ∀ left ts rest, Derives (.arithmetic left) ts →
    Takes (arithmeticRest n left) rest fun used e _ => Derives (.arithmetic e) (ts ++ used)
  unary : ∀ rest, Takes (unary n) rest fun used e _ => Derives (.operand e) used
  callRest : ∀ callee ts rest, Derives (.operand callee) ts →
    Takes (callRest n callee) rest fun used e _ => Derives (.operand e) (ts ++ used)
  argumentList : ∀ read rest, Takes (argumentList n read) rest fun used es _ =>
    ∃ more, es = read.reverse ++ more ∧ es.length ≤ maxArguments ∧ Derives (.argumentList more) used
  primary : ∀ rest, Takes (primary n) rest fun used e _ => Derives (.primary e) used

namespace ExprsTake

variable {n : Nat} (before : ExprsTake n) (rest : List Token)

include before

theorem expression_succ :
    Takes (Parser.expression (n + 1)) rest fun used e _ => Derives (.expression e) used := by
  rw [Parser.expression]
  refine (before.comparison rest).bind fun ts left rest first => ?_
  refine Takes.takeIf (fun _ => ?_) (fun equals rest inside sign _ => ?_)
  · apply Takes.pure
    rw [List.append_nil]
    exact .comparison first
  · refine (before.expression rest).bind fun us value rest second => ?_
    -- only a name can be assigned to
    cases left with
    | name target =>
      obtain ⟨rfl, kind⟩ := eq_of_comparison_name first
      apply Takes.pure
      rw [List.append_nil]
      exact .assigned kind sign second
    | _ => exact Takes.failAt _ _

theorem comparison_succ :
    Takes (Parser.comparison (n + 1)) rest fun used e _ => Derives (.comparison e) used := by
  rw [Parser.comparison]
  refine (before.arithmetic rest).bind fun ts left rest first => ?_
  exact before.comparisonRest left ts rest (.arithmetic first)

theorem comparisonRest_succ (left : Expr) (ts : List Token) (first : Derives (.comparison left) ts) :
    Takes (Parser.comparisonRest (n + 1) left) rest fun used e _ =>
      Derives (.comparison e) (ts ++ used) := by
  rw [Parser.comparisonRest]
  refine Takes.accept (fun _ => ?_) (fun op rest inside kind => ?_)
  · apply Takes.pure
    rw [List.append_nil]
    exact first
  · refine (before.arithmetic rest).bind fun us right rest second => ?_
    refine (before.comparisonRest _ _ rest (.compared first kind second)).mono fun used e _ derived => ?_
    simpa using derived

theorem arithmetic_succ :
    Takes (Parser.arithmetic (n + 1)) rest fun used e _ => Derives (.arithmetic e) used := by
  rw [Parser.arithmetic]
  refine (before.unary rest).bind fun ts left rest first => ?_
  exact before.arithmeticRest left ts rest (.operand first)

theorem arithmeticRest_succ (left : Expr) (ts : List Token) (first : Derives (.arithmetic left) ts) :
    Takes (Parser.arithmeticRest (n + 1) left) rest fun used e _ =>
      Derives (.arithmetic e) (ts ++ used) := by
  rw [Parser.arithmeticRest]
  refine Takes.accept (fun _ => ?_) (fun op rest inside kind => ?_)
  · apply Takes.pure
    rw [List.append_nil]
    exact first
  · refine (before.unary rest).bind fun us right rest second => ?_
    refine (before.arithmeticRest _ _ rest (.joined first kind second)).mono fun used e _ derived => ?_
    simpa using derived

theorem unary_succ :
    Takes (Parser.unary (n + 1)) rest fun used e _ => Derives (.operand e) used := by
  rw [Parser.unary]
  refine Takes.takeIf (fun _ => ?_) (fun op rest inside sign _ => ?_)
  · refine (before.primary rest).bind fun ts operand rest plain => ?_
    exact before.callRest operand ts rest (.primary plain)
  · refine (before.unary rest).bind fun ts operand rest signed => ?_
    apply Takes.pure
    rw [List.append_nil]
    exact .sign sign signed

theorem callRest_succ (callee : Expr) (ts : List Token) (first : Derives (.operand callee) ts) :
    Takes (Parser.callRest (n + 1) callee) rest fun used e _ => Derives (.operand e) (ts ++ used) := by
  rw [Parser.callRest]
  refine Takes.accept (fun _ => ?_) (fun opening rest inside opens => ?_)
  · apply Takes.pure
    rw [List.append_nil]
    exact first
  · cases callee with
    | name function =>
      obtain ⟨rfl, kind⟩ := eq_of_operand_name first
      have closed : ∀ us es rest, Derives (.arguments es) us →
          Takes (do let _ ← Parser.expect .rightParen .argumentsClose
                    Parser.callRest n (.call function es)) rest
            fun used e _ => Derives (.operand e) ([function] ++ opening :: (us ++ used)) := by
        intro us es rest passed
        refine Takes.expect fun closing rest inside closes => ?_
        refine (before.callRest _ _ rest (.call kind opens passed closes)).mono fun used e _ called => ?_
        simpa using called
      refine Takes.nextIs fun ends => ?_
      cases ends with
      | true => exact closed [] [] rest .noArguments
      | false =>
        refine (before.argumentList [] rest).bind fun us es rest listed => ?_
        obtain ⟨_, rfl, few, listed⟩ := listed
        exact closed us _ rest (.someArguments listed few)
    | _ => exact Takes.failAt _ _

theorem argumentList_succ (read : List Expr) :
    Takes (Parser.argumentList (n + 1) read) rest fun used es _ =>
      ∃ more, es = read.reverse ++ more ∧ es.length ≤ maxArguments ∧
        Derives (.argumentList more) used := by
  rw [Parser.argumentList]
  split
  · exact Takes.failHere _
  · rename_i few
    refine (before.expression rest).bind fun ts argument rest first => ?_
    refine Takes.accept (fun _ => ?_) (fun comma rest inside kind => ?_)
    · apply Takes.pure
      refine ⟨[argument], by simp, ?_, by simpa using .lastArgument first⟩
      simp only [List.length_reverse, List.length_cons]
      omega
    · refine (before.argumentList (argument :: read) rest).mono fun used es _ listed => ?_
      obtain ⟨more, rfl, few, further⟩ := listed
      exact ⟨argument :: more, by simp, few, .nextArgument first kind further⟩

theorem primary_succ :
    Takes (Parser.primary (n + 1)) rest fun used e _ => Derives (.primary e) used := by
  rw [Parser.primary]
  refine Takes.takeIf (fun _ => Takes.failHere _) (fun t rest inside kind _ => ?_)
  dsimp only
  split
  · rename_i kind
    exact Takes.pure (.name kind)
  · rename_i opens
    refine (before.expression rest).bind fun ts inner rest derived => ?_
    refine Takes.expect fun closing rest inside closes => ?_
    exact Takes.pure (.group opens derived closes)
  · rename_i noName noParen
    refine Takes.pure (.literal ?_)
    simp only [isLiteral, List.mem_cons, List.not_mem_nil, or_false, decide_eq_true_eq] at kind ⊢
    grind

end ExprsTake

theorem exprs_take : ∀ n, ExprsTake n
  | 0 => by
    constructor
    all_goals
      intros
      exact Takes.failHere _
  | n + 1 =>
    have before := exprs_take n
    { expression := before.expression_succ
      comparison := before.comparison_succ
      comparisonRest := fun left ts rest => before.comparisonRest_succ rest left ts
      arithmetic := before.arithmetic_succ
      arithmeticRest := fun left ts rest => before.arithmeticRest_succ rest left ts
      unary := before.unary_succ
      callRest := fun callee ts rest => before.callRest_succ rest callee ts
      argumentList := fun read rest => before.argumentList_succ rest read
      primary := before.primary_succ }

/-! ## Statements -/

section clauses

variable (n : Nat) (rest : List Token)

/-- What follows the keyword of a declaration, with that keyword. -/
theorem declaredVariable_takes {keyword : Token} (keyed : keyword.is .keyword "var" = true) :
    Takes (declaredVariable n) rest fun used st _ =>
      ∃ var value, st = .declare var value ∧ Derives (.variable var value) (keyword :: used) := by
  rw [declaredVariable]
  refine Takes.expect fun var rest inside kind => ?_
  refine Takes.takeIf (fun _ => ?_) (fun equals rest inside sign _ => ?_)
  · refine Takes.expect fun closing rest inside ends => ?_
    exact Takes.pure ⟨var, none, rfl, .unset keyed kind ends⟩
  · refine ((exprs_take n).expression rest).bind fun ts value rest derived => ?_
    refine Takes.expect fun closing rest inside ends => ?_
    exact Takes.pure ⟨var, some value, rfl, .set keyed kind sign derived ends⟩

theorem expressionStatement_takes :
    Takes (expressionStatement n) rest fun used st _ =>
      ∃ e, st = .expression e ∧ Derives (.effect e) used := by
  rw [expressionStatement]
  refine ((exprs_take n).expression rest).bind fun ts value rest derived => ?_
  refine Takes.expect fun closing rest inside ends => ?_
  exact Takes.pure ⟨value, rfl, .effect derived ends⟩

theorem forClause_takes (ending : Kind) (cause : Cause) :
    Takes (forClause n ending cause) rest fun used e _ => Derives (.clause ending e) used := by
  rw [forClause]
  refine Takes.nextIs fun absent => ?_
  cases absent with
  | true =>
    refine Takes.expect fun closing rest inside ends => ?_
    exact Takes.pure (.noClause ends inside)
  | false =>
    refine ((exprs_take n).expression rest).bind fun ts value rest derived => ?_
    refine Takes.expect fun closing rest inside ends => ?_
    exact Takes.pure (.someClause derived ends inside)

/-- The value of a return statement is spelled as a clause of a counting loop is. -/
theorem returned_eq (keyword : Token) :
    returned n keyword = .ret keyword <$> forClause n .semicolon .returnEnd := by
  simp only [returned, forClause, map_bind]
  congr 1
  funext absent
  cases absent <;> simp

theorem forInitial_takes :
    Takes (forInitial n) rest fun used st _ => Derives (.initial st) used := by
  rw [forInitial]
  refine Takes.accept (fun _ => ?_) (fun closing rest inside ends => ?_)
  · refine Takes.takeIf (fun _ => ?_) (fun keyword rest inside keyed _ => ?_)
    · refine Takes.map ((expressionStatement_takes n rest).mono fun used st _ simple => ?_)
      obtain ⟨e, rfl, derived⟩ := simple
      exact .effectInitial derived
    · refine Takes.map ((declaredVariable_takes n rest keyed).mono fun used st _ declared => ?_)
      obtain ⟨var, value, rfl, derived⟩ := declared
      exact .variableInitial derived
  · exact Takes.pure (.noInitial ends)

/-- A condition in parentheses is spelled between two tokens. -/
theorem condition_takes (opening closing : Cause) :
    Takes (condition n opening closing) rest fun used e _ =>
      ∃ (left : Token) (ts : List Token) (right : Token), used = left :: (ts ++ [right]) ∧
        left.kind = .leftParen ∧ Derives (.expression e) ts ∧ right.kind = .rightParen := by
  rw [condition]
  refine Takes.expect fun left rest inside opens => ?_
  refine ((exprs_take n).expression rest).bind fun ts value rest derived => ?_
  refine Takes.expect fun right rest inside closes => ?_
  exact Takes.pure ⟨left, ts, right, rfl, opens, derived, closes⟩

theorem parameterList_takes (read : List Token) :
    Takes (parameterList n read) rest fun used params _ =>
      ∃ more, params = read.reverse ++ more ∧ params.length ≤ maxArguments ∧
        Derives (.parameterList more) used := by
  induction n generalizing rest read with
  | zero => exact Takes.failHere _
  | succ n ih =>
    rw [parameterList]
    split
    · exact Takes.failHere _
    · rename_i few
      refine Takes.expect fun param rest inside kind => ?_
      refine Takes.accept (fun _ => ?_) (fun comma rest inside separated => ?_)
      · apply Takes.pure
        refine ⟨[param], by simp, ?_, .lastParameter kind⟩
        simp only [List.length_reverse, List.length_cons]
        omega
      · refine (ih rest (param :: read)).mono fun used params _ listed => ?_
        obtain ⟨more, rfl, few, further⟩ := listed
        exact ⟨param :: more, by simp, few, .nextParameter kind separated further⟩

/-- What follows the keyword of a function, up to the brace that opens its body. -/
def Head (used : List Token) (name : Token) (params : List Token) : Prop :=
  ∃ (opening : Token) (ts : List Token) (closing start : Token),
    used = name :: opening :: (ts ++ [closing, start]) ∧
    name.kind = .identifier ∧ opening.kind = .leftParen ∧ Derives (.parameters params) ts ∧
    closing.kind = .rightParen ∧ start.kind = .leftBrace

theorem functionHead_takes :
    Takes (functionHead n) rest fun used head _ => Head used head.1 head.2 := by
  rw [functionHead]
  refine Takes.expect fun name rest inside kind => ?_
  refine Takes.expect fun opening rest inside opens => ?_
  have closed : ∀ ts params rest, Derives (.parameters params) ts →
      Takes (do let _ ← expect .rightParen .parametersClose
                let _ ← expect .leftBrace .functionBody
                return (name, params)) rest
        fun used head _ => Head (name :: opening :: (ts ++ used)) head.1 head.2 := by
    intro ts params rest given
    refine Takes.expect fun closing rest inside closes => ?_
    refine Takes.expect fun start rest inside starts => ?_
    exact Takes.pure ⟨opening, ts, closing, start, rfl, kind, opens, given, closes, starts⟩
  refine Takes.nextIs fun absent => ?_
  cases absent with
  | true => exact closed [] [] rest .noParameters
  | false =>
    refine (parameterList_takes n rest []).bind fun ts params rest listed => ?_
    obtain ⟨_, rfl, few, listed⟩ := listed
    exact closed ts _ rest (.someParameters listed few)

end clauses

/-- The token that announces the second branch of a conditional. -/
def isElse (t : Token) : Bool :=
  t.is .keyword "else"

/-- The tokens spell a statement, and if they do so openly, then no `else` follows. -/
def Statement (used : List Token) (st : Stmt) (rest : List Token) : Prop :=
  ∃ opened, Derives (.statement st opened) used ∧ (opened = true → starts isElse rest = false)

def Declaration (used : List Token) (st : Stmt) (rest : List Token) : Prop :=
  ∃ opened, Derives (.declaration st opened) used ∧ (opened = true → starts isElse rest = false)

theorem Declaration.length_pos {used rest : List Token} {st : Stmt} (spelled : Declaration used st rest) :
    0 < used.length := by
  obtain ⟨opened, derived, _⟩ := spelled
  exact length_pos_of_starts derived.starts

theorem Statement.length_pos {used rest : List Token} {st : Stmt} (spelled : Statement used st rest) :
    0 < used.length := by
  obtain ⟨opened, derived, _⟩ := spelled
  exact length_pos_of_starts derived.starts

theorem Statement.closed {used : List Token} {st : Stmt} {rest : List Token}
    (derived : Derives (.statement st false) used) : Statement used st rest :=
  ⟨false, derived, nofun⟩

/-- The declarations `more` and the brace behind them. -/
def Body (used : List Token) (more : List Stmt) : Prop :=
  ∃ (ts : List Token) (brace : Token),
    used = ts ++ [brace] ∧ Derives (.body more) ts ∧ brace.kind = .rightBrace

/-- What the functions for statements take within `n` steps. -/
structure StmtsTake (n : Nat) : Prop where
  declaration : ∀ rest, Takes (declaration n) rest Declaration
  statement : ∀ rest, Takes (statement n) rest Statement
  keywordStatement : ∀ keyword rest, keyword.kind = .keyword →
    Takes (keywordStatement n keyword) rest fun used => Statement (keyword :: used)
  blockRest : ∀ ending read rest, Takes (blockRest n ending read) rest fun used ss _ =>
    ∃ more, ss = read.reverse ++ more ∧ Body used more

namespace StmtsTake

variable {n : Nat} (before : StmtsTake n) (rest : List Token)

include before

theorem declaration_succ : Takes (Parser.declaration (n + 1)) rest Declaration := by
  rw [Parser.declaration]
  refine Takes.takeIf (fun _ => ?_) (fun keyword rest inside keyed _ => ?_)
  · refine Takes.takeIf (fun _ => ?_) (fun keyword rest inside keyed _ => ?_)
    · refine (before.statement rest).mono fun used st rest' plain => ?_
      obtain ⟨opened, derived, follows⟩ := plain
      exact ⟨opened, .statement derived, follows⟩
    · refine (declaredVariable_takes n rest keyed).mono fun used st rest' declared => ?_
      obtain ⟨var, value, rfl, derived⟩ := declared
      exact ⟨false, .variableDeclaration derived, nofun⟩
  · refine (functionHead_takes n rest).bind fun ts head rest given => ?_
    obtain ⟨name, params⟩ := head
    obtain ⟨opening, us, closing, start, rfl, kind, opens, given, closes, starts⟩ := given
    refine (before.blockRest _ [] rest).bind fun vs body rest inner => ?_
    obtain ⟨_, rfl, ws, brace, rfl, inner, ends⟩ := inner
    apply Takes.pure
    refine ⟨false, ?_, nofun⟩
    simpa using Derives.function keyed kind opens given closes starts inner ends

theorem statement_succ : Takes (Parser.statement (n + 1)) rest Statement := by
  rw [Parser.statement]
  refine Takes.accept (fun _ => ?_) (fun opening rest inside opens => ?_)
  · refine Takes.accept (fun _ => ?_) (fun keyword rest inside kind => ?_)
    · refine (expressionStatement_takes n rest).mono fun used st rest' simple => ?_
      obtain ⟨e, rfl, derived⟩ := simple
      exact Statement.closed (.effectStatement derived)
    · exact before.keywordStatement keyword rest kind
  · refine Takes.map ((before.blockRest _ [] rest).mono fun used ss rest' inner => ?_)
    obtain ⟨_, rfl, ts, brace, rfl, inner, closes⟩ := inner
    exact Statement.closed (.block opens inner closes)

theorem ifElse_takes {keyword : Token} (keyed : keyword.is .keyword "if" = true) :
    Takes (do let test ← condition n .ifOpen .ifClose
              let yes ← Parser.statement n
              match ← acceptText .keyword "else" with
              | some _ =>
                let no ← Parser.statement n
                return .ifElse test yes (some no)
              | none => return .ifElse test yes none) rest
      fun used => Statement (keyword :: used) := by
  refine (condition_takes n rest _ _).bind fun ts test rest tested => ?_
  obtain ⟨opening, ts, closing, rfl, opens, tested, closes⟩ := tested
  refine (before.statement rest).bind fun us yes rest first => ?_
  obtain ⟨opened, first, follows⟩ := first
  refine Takes.takeIf (fun absent => ?_) (fun between rest' inside parted taken => ?_)
  · apply Takes.pure
    refine ⟨true, ?_, fun _ => absent⟩
    simpa using Derives.ifThen keyed opens tested closes first
  · -- had the first branch ended open, the `else` would have been taken there
    have closed : opened = false := by
      cases opened with
      | false => rfl
      | true => cases taken.symm.trans (follows rfl)
    subst closed
    refine (before.statement rest').bind fun vs no rest second => ?_
    obtain ⟨opened', second, follows'⟩ := second
    apply Takes.pure
    refine ⟨opened', ?_, follows'⟩
    simpa using Derives.ifElse keyed opens tested closes first parted second

theorem keywordStatement_succ (keyword : Token) (kind : keyword.kind = .keyword) :
    Takes (Parser.keywordStatement (n + 1) keyword) rest fun used => Statement (keyword :: used) := by
  rw [Parser.keywordStatement]
  split
  all_goals try
    rename_i text
    have keyed := Token.is_iff.mpr ⟨kind, text⟩
  · exact before.ifElse_takes rest keyed
  · refine (condition_takes n rest _ _).bind fun ts test rest tested => ?_
    obtain ⟨opening, ts, closing, rfl, opens, tested, closes⟩ := tested
    refine (before.statement rest).bind fun us body rest repeated => ?_
    obtain ⟨opened, repeated, follows⟩ := repeated
    apply Takes.pure
    refine ⟨opened, ?_, follows⟩
    simpa using Derives.whileLoop keyed opens tested closes repeated
  · refine Takes.expect fun opening rest inside opens => ?_
    refine (forInitial_takes n rest).bind fun ts initial rest first => ?_
    refine (forClause_takes n rest _ _).bind fun us test rest tested => ?_
    refine (forClause_takes n rest _ _).bind fun vs step rest stepped => ?_
    refine (before.statement rest).bind fun ws body rest repeated => ?_
    obtain ⟨opened, repeated, follows⟩ := repeated
    apply Takes.pure
    refine ⟨opened, ?_, follows⟩
    simpa using Derives.forLoop keyed opens first tested stepped repeated
  · rw [printed]
    refine ((exprs_take n).expression rest).bind fun ts value rest derived => ?_
    refine Takes.expect fun closing rest inside ends => ?_
    exact Takes.pure (Statement.closed (.print keyed derived ends))
  · rw [returned_eq]
    refine Takes.map ((forClause_takes n rest _ _).mono fun used value rest' derived => ?_)
    exact Statement.closed (.ret keyed derived)
  · rw [broken]
    refine Takes.expect fun closing rest inside ends => ?_
    exact Takes.pure (Statement.closed (.brk keyed ends))
  · exact Takes.failAt _ _

theorem blockRest_succ (ending : Cause) (read : List Stmt) :
    Takes (Parser.blockRest (n + 1) ending read) rest fun used ss _ =>
      ∃ more, ss = read.reverse ++ more ∧ Body used more := by
  rw [Parser.blockRest]
  refine Takes.accept (fun _ => ?_) (fun brace rest inside closes => ?_)
  · refine Takes.get ?_
    split
    · exact Takes.failHere _
    · refine (before.declaration rest).bind fun ts st rest first => ?_
      obtain ⟨opened, first, _⟩ := first
      refine (before.blockRest ending (st :: read) rest).mono fun used ss rest' inner => ?_
      obtain ⟨more, rfl, us, brace, rfl, further, closes⟩ := inner
      exact ⟨st :: more, by simp, ts ++ us, brace, by simp, .nextInBody first further, closes⟩
  · exact Takes.pure ⟨[], by simp, [], brace, rfl, .emptyBody, closes⟩

end StmtsTake

theorem stmts_take : ∀ n, StmtsTake n
  | 0 => by
    constructor
    all_goals
      intros
      exact Takes.failHere _
  | n + 1 =>
    have before := stmts_take n
    { declaration := before.declaration_succ
      statement := before.statement_succ
      keywordStatement := fun keyword rest => before.keywordStatement_succ rest keyword
      blockRest := fun ending read rest => before.blockRest_succ rest ending read }

/-! ## Programs -/

/-- The first statement at the top of a program that cannot be read: its error, and what is left of
    the input there. -/
def failedStatement : Nat → List Token → Option (ParseError × List Token)
  | 0, _ => none
  | _ + 1, [] => none
  | n + 1, t :: behind =>
    if t.isEnd then
      none
    else if isStray t then
      failedStatement n behind
    else
      match declaration n (t :: behind) with
      | .ok _ rest => failedStatement n rest
      | .error e rest => some (e, rest)

/-- The tokens in front of the first end token. -/
def inside (tokens : List Token) : List Token :=
  tokens.takeWhile fun t => !t.isEnd

theorem inside_append {used : List Token} (within : ∀ t ∈ used, t.isEnd = false) (rest : List Token) :
    inside (used ++ rest) = used ++ inside rest := by
  refine List.takeWhile_append_of_pos fun t member => ?_
  rw [within t member, Bool.not_false]

theorem statements_spell (n : Nat) (read : List Stmt) (rest : List Token) {program : List Stmt}
    {rest' : List Token} (run : statements n read rest = .ok program rest') :
    ∃ used lost more, program = read.reverse ++ more ∧ inside rest = used ++ lost ∧ Spells used more ∧
      (failedStatement n rest = none → lost = []) := by
  induction n generalizing read rest with
  | zero => cases run
  | succ n ih =>
    cases rest with
    | nil =>
      cases run
      exact ⟨[], [], [], by simp, rfl, .done, fun _ => rfl⟩
    | cons t behind =>
      simp only [statements] at run
      simp only [failedStatement]
      by_cases ends : t.isEnd = true
      · rw [if_pos ends] at run
        cases run
        exact ⟨[], [], [], by simp, by simp [inside, ends], .done, fun _ => rfl⟩
      have within : t.isEnd = false := Bool.eq_false_iff.mpr ends
      rw [if_neg ends] at run ⊢
      by_cases stray : isStray t = true
      · rw [if_pos stray] at run ⊢
        obtain ⟨used, lost, more, rfl, split, spelled, whole⟩ := ih read behind run
        have split' : inside (t :: behind) = t :: (used ++ lost) := by
          rw [← split]
          exact @inside_append [t] (by simpa using within) behind
        exact ⟨t :: used, lost, more, rfl, split', .stray within stray spelled, whole⟩
      rw [if_neg stray] at run ⊢
      cases attempt : declaration n (t :: behind) with
      | ok st middle =>
        rw [attempt] at run
        obtain ⟨ts, taken, opened, derived, _⟩ := (stmts_take n).declaration _ st middle attempt
        obtain ⟨used, lost, more, rfl, split, spelled, whole⟩ := ih (st :: read) middle run
        -- what is taken for a declaration is not empty, and starts with `t`
        cases ts with
        | nil => cases derived.starts
        | cons t' us =>
          obtain ⟨rfl, rfl⟩ := List.cons.inj taken
          have split' : inside (t :: (us ++ middle)) = t :: us ++ used ++ lost := by
            rw [List.append_assoc, ← split]
            exact inside_append derived.isEnd_eq_false middle
          exact ⟨t :: us ++ used, lost, st :: more, by simp, split',
            .next (Bool.eq_false_iff.mpr stray) derived spelled, whole⟩
      | error e middle =>
        rw [attempt] at run
        dsimp only at run
        split at run
        · cases run
          exact ⟨[], inside (t :: behind), [], by simp, rfl, .done, nofun⟩
        · cases run

end Parser

/-- The error of the first statement that cannot be read, and what is left of the tokens there.  If
    nothing is left, then the parser forgets the error. -/
def firstFailure (tokens : List Token) : Option (ParseError × List Token) :=
  Parser.failedStatement (Parser.steps (closeTokens tokens)) (closeTokens tokens)

theorem inside_closeTokens (tokens : List Token) :
    Parser.inside (closeTokens tokens) = Parser.inside tokens := by
  have closed : ∀ p, Parser.inside (tokens ++ [Token.endOfFile p]) = Parser.inside tokens := by
    intro p
    induction tokens with
    | nil => rfl
    | cons t tokens ih =>
      simp only [Parser.inside, List.cons_append, List.takeWhile_cons] at ih ⊢
      rw [ih]
  rw [closeTokens]
  split
  · split
    · rfl
    · exact closed _
  · rename_i none
    rw [List.getLast?_eq_none_iff.mp none]
    rfl

theorem program_of_parseTokens {tokens : List Token} {statements : List Stmt}
    (parsed : parseTokens tokens = .ok statements) :
    ∃ rest, Parser.program (closeTokens tokens) = .ok statements rest := by
  rw [parseTokens] at parsed
  split at parsed
  · rename_i program rest run
    cases parsed
    exact ⟨rest, run⟩
  · cases parsed

/-- What the parser reads is spelled by the tokens in front of the first end token, and by all of
    them unless an error at the end was forgotten.  Its trees are shaped in either case. -/
theorem parseTokens_spells {tokens : List Token} {statements : List Stmt}
    (parsed : parseTokens tokens = .ok statements) :
    (∃ used lost, Parser.inside tokens = used ++ lost ∧ Grammar.Spells used statements ∧
      (firstFailure tokens = none → lost = [])) ∧
    Stmt.listShaped statements = true := by
  obtain ⟨rest, run⟩ := program_of_parseTokens parsed
  obtain ⟨used, lost, _, rfl, split, spelled, whole⟩ := Parser.statements_spell _ [] _ run
  rw [inside_closeTokens] at split
  exact ⟨⟨used, lost, split, spelled, whole⟩, spelled.shaped⟩

/-- Stray tokens before and after a counting loop, and tokens behind the end, which are not read. -/
theorem parseTokens_spells_loop :
    let stray := Token.synthetic .unknown "?"
    let x := Token.synthetic .identifier "x"
    let less := Token.synthetic .compare "<"
    let one := Token.synthetic .intLiteral "1"
    let minus := Token.synthetic .arithmetic "-"
    let loop := [.synthetic .keyword "for", .synthetic .leftParen "(", .synthetic .semicolon ";", x, less, one,
      .synthetic .semicolon ";", .synthetic .rightParen ")", .synthetic .keyword "if",
      .synthetic .leftParen "(", x, .synthetic .rightParen ")", .synthetic .keyword "screenit", minus, x,
      .synthetic .semicolon ";"]
    let body : Stmt := .ifElse (.name x) (.print (.unary minus (.name x))) none
    let statements := [.whileLoop (.binary (.name x) less (.literal one)) body]
    let tokens := stray :: loop ++ [stray, .endOfFile .start, x]
    parseTokens tokens = .ok statements ∧ Grammar.Spells (stray :: loop ++ [stray]) statements := by
  intro stray x less one minus loop body statements tokens
  have parsed : parseTokens tokens = .ok statements := rfl
  obtain ⟨⟨used, lost, split, spelled, whole⟩, _⟩ := parseTokens_spells parsed
  have none : firstFailure tokens = none := rfl
  have front : Parser.inside tokens = stray :: loop ++ [stray] := rfl
  rw [whole none, List.append_nil, front] at split
  exact ⟨parsed, split ▸ spelled⟩

end ImpCompiler
