import ImpCompiler.Proofs.Tree.Soundness

/-! # The parser reads all that the grammar spells

Every spelling of a phrase is read back as that phrase, whatever follows it, as long as what follows
cannot be part of it (`Derives.read`).  The parser takes as many steps for it as nine times the
number of tokens, and a few more that depend on the level of the phrase. -/

namespace ImpCompiler

namespace Parser

open Grammar

variable {α β : Type}

/-! ## Single tokens -/

theorem bind_eq {p : Parser α} {next : α → Parser β} {rest rest' : List Token} {a : α}
    (run : p rest = .ok a rest') : (p >>= next) rest = next a rest' := by
  simp only [bind, EStateM.bind, run]

theorem map_eq {p : Parser α} {f : α → β} {rest rest' : List Token} {a : α}
    (run : p rest = .ok a rest') : (f <$> p) rest = .ok (f a) rest' := by
  simp only [Functor.map, EStateM.map, run]

theorem takeIf_eq_none {accepts : Token → Bool} {rest : List Token}
    (absent : starts accepts rest = false) : takeIf accepts rest = .ok none rest := by
  cases rest with
  | nil => rfl
  | cons t behind =>
    rw [starts] at absent
    simp [takeIf, absent]

theorem takeIf_eq_some {accepts : Token → Bool} {t : Token} {rest : List Token}
    (present : starts accepts (t :: rest) = true) : takeIf accepts (t :: rest) = .ok (some t) rest := by
  rw [starts] at present
  simp [takeIf, present]

theorem starts_kind {t : Token} {kind : Kind} (is : t.kind = kind) (inside : kind ≠ .endOfFile)
    (rest : List Token) : starts (fun t => t.kind == kind) (t :: rest) = true := by
  simp [starts, Token.isEnd, is, inside]

theorem starts_text {t : Token} {kind : Kind} {text : String} (is : t.is kind text = true)
    (inside : kind ≠ .endOfFile) (rest : List Token) :
    starts (fun t => t.is kind text) (t :: rest) = true := by
  simp [starts, is, Token.isEnd, (Token.is_iff.mp is).1, inside]

theorem expect_eq {t : Token} {kind : Kind} (is : t.kind = kind) (inside : kind ≠ .endOfFile)
    (cause : Cause) (rest : List Token) : expect kind cause (t :: rest) = .ok t rest := by
  exact (bind_eq (takeIf_eq_some (starts_kind is inside rest))).trans rfl

theorem atEnd_eq_false {accepts : Token → Bool} {rest : List Token}
    (first : starts accepts rest = true) : atEnd rest = false := by
  cases rest with
  | nil => cases first
  | cons t behind =>
    simp only [starts, Bool.and_eq_true, Bool.not_eq_true'] at first
    exact first.1

theorem nextIs_eq {kind : Kind} {rest : List Token} {b : Bool}
    (first : starts (fun t => t.kind == kind) rest = b) : nextIs kind rest = .ok b rest := by
  rw [← first]
  cases rest <;> rfl

/-! ## What follows a phrase -/

/-- The opening of an argument list. -/
def opensCall (t : Token) : Bool :=
  t.kind == .leftParen

/-- Whether an expression in front of the token goes on with it. -/
def continues (t : Token) : Bool :=
  opensCall t || t.kind == .arithmetic || t.kind == .compare || t.is .operator "="

theorem starts_eq_false_of_imp {p q : Token → Bool} (stronger : ∀ t, p t = true → q t = true)
    {ts : List Token} (absent : starts q ts = false) : starts p ts = false := by
  refine Bool.eq_false_iff.mpr fun present => ?_
  rw [starts_mono stronger present] at absent
  cases absent

theorem starts_continues_eq_false {t : Token} {kind : Kind} (is : t.kind = kind)
    (ends : kind = .semicolon ∨ kind = .rightParen ∨ kind = .comma) (rest : List Token) :
    starts continues (t :: rest) = false := by
  obtain rfl | rfl | rfl := ends <;> simp [starts, continues, opensCall, Token.is, is]

theorem kind_of_startsExpression {t : Token} (first : startsExpression t = true) :
    t.kind ∈ [.boolLiteral, .intLiteral, .floatLiteral, .stringLiteral, .identifier, .leftParen,
      .arithmetic, .operator] := by
  simp only [startsExpression, startsPrimary, isSign, Bool.or_eq_true, Token.is_iff, decide_eq_true_eq,
    List.mem_cons, List.not_mem_nil, or_false] at first ⊢
  grind

theorem isSign_of_startsPrimary (t : Token) (first : startsPrimary t = true) : isSign t = false := by
  simp only [startsPrimary, decide_eq_true_eq, List.mem_cons, List.not_mem_nil, or_false] at first
  obtain kind | kind | kind | kind | kind | kind := first <;> simp [isSign, Token.is, kind]

/-- No expression starts with a token of another kind. -/
theorem not_kind_of_startsExpression {kind : Kind} (other : kind ∉ [.boolLiteral, .intLiteral,
    .floatLiteral, .stringLiteral, .identifier, .leftParen, .arithmetic, .operator]) (t : Token)
    (first : startsExpression t = true) : (t.kind == kind) = false := by
  refine beq_false_of_ne fun same => other ?_
  exact same ▸ kind_of_startsExpression first

theorem not_declaring_of_startsStatement {word : String} (declares : word ∉ ["if", "while", "for",
    "screenit", "return", "break"]) (t : Token) (first : startsStatement t = true) :
    t.is .keyword word = false := by
  refine Bool.eq_false_iff.mpr fun is => ?_
  obtain ⟨kind, rfl⟩ := Token.is_iff.mp is
  have plain := @not_kind_of_startsExpression .keyword (by decide) t
  simp only [startsStatement, kind, Bool.or_eq_true, Bool.and_eq_true, decide_eq_true_eq] at first
  grind

theorem isElse_of_startsDeclaration (t : Token) (first : startsDeclaration t = true) :
    isElse t = false := by
  simp only [startsDeclaration, Bool.or_eq_true] at first
  obtain (plain | keyed) | keyed := first
  · exact not_declaring_of_startsStatement (by decide) t plain
  · simp [isElse, Token.is, Token.is_iff.mp keyed]
  · simp [isElse, Token.is, Token.is_iff.mp keyed]

/-- No declaration starts with a token of another kind. -/
theorem not_kind_of_startsDeclaration {kind : Kind} (other : kind ∉ [.boolLiteral, .intLiteral,
    .floatLiteral, .stringLiteral, .identifier, .leftParen, .arithmetic, .operator, .leftBrace, .keyword])
    (t : Token) (first : startsDeclaration t = true) : (t.kind == kind) = false := by
  refine beq_false_of_ne fun same => other ?_
  subst same
  have plain := @kind_of_startsExpression t
  simp only [startsDeclaration, startsStatement, Bool.or_eq_true, Bool.and_eq_true, beq_iff_eq,
    Token.is_iff, List.mem_cons, List.not_mem_nil, or_false] at first plain ⊢
  grind

/-- A declaration that starts with a text is not left out at the top of a program. -/
theorem isStray_eq_false_of_declaration {st : Stmt} {opened : Bool} {t : Token} {us : List Token}
    (derived : Derives (.declaration st opened) (t :: us)) (visible : t.text ≠ "") : isStray t = false := by
  have first := derived.starts
  simp only [Phrase.Starts, starts, Bool.and_eq_true] at first
  have known := @not_kind_of_startsDeclaration .unknown (by decide) t first.2
  simpa [isStray, known] using visible

/-! ## Reading back -/

/-- The phrase is read from any input that starts with `used`, if nothing that follows belongs to it.

    The spelling of an operator starts with that of its left operand.  So arithmetic and comparisons
    are not read to their end here, but up to the point where the next operator is looked for. -/
def ReadsBack : Phrase → List Token → Prop
  | .primary e, used => ∀ n rest, 9 * used.length + 1 ≤ n → primary n (used ++ rest) = .ok e rest
  | .operand e, used => ∀ n rest, 9 * used.length + 2 ≤ n → starts opensCall rest = false →
    unary n (used ++ rest) = .ok e rest
  | .arithmetic e, used => ∀ n rest, 9 * used.length + 3 ≤ n → starts opensCall rest = false →
    ∃ m, n ≤ m + used.length ∧ arithmetic n (used ++ rest) = arithmeticRest m e rest
  | .comparison e, used => ∀ n rest, 9 * used.length + 4 ≤ n → starts opensCall rest = false →
    starts (fun t => t.kind == .arithmetic) rest = false →
    ∃ m, n ≤ m + used.length ∧ comparison n (used ++ rest) = comparisonRest m e rest
  | .expression e, used => ∀ n rest, 9 * used.length + 5 ≤ n → starts continues rest = false →
    expression n (used ++ rest) = .ok e rest
  | .argumentList es, used => ∀ n read rest, 9 * used.length + 6 ≤ n →
    read.length + es.length ≤ maxArguments → starts (fun t => continues t || t.kind == .comma) rest = false →
    argumentList n read (used ++ rest) = .ok (read.reverse ++ es) rest
  | .arguments es, used => ∀ n callee opening closing rest, 9 * used.length + 6 ≤ n →
    opening.kind = .leftParen → closing.kind = .rightParen →
    callRest (n + 1) (.name callee) (opening :: (used ++ closing :: rest)) =
      callRest n (.call callee es) rest
  | .parameterList names, used => ∀ n read rest, 9 * used.length ≤ n →
    read.length + names.length ≤ maxArguments → starts (fun t => t.kind == .comma) rest = false →
    parameterList n read (used ++ rest) = .ok (read.reverse ++ names) rest
  | .parameters names, used => ∀ n name opening closing start rest, 9 * used.length ≤ n →
    name.kind = .identifier → opening.kind = .leftParen → closing.kind = .rightParen →
    start.kind = .leftBrace →
    functionHead n (name :: opening :: (used ++ closing :: start :: rest)) = .ok (name, names) rest
  | .clause ending e, used => ∀ n cause rest, 9 * used.length ≤ n →
    ending = .semicolon ∨ ending = .rightParen → forClause n ending cause (used ++ rest) = .ok e rest
  | .variable var value, used => ∃ keyword us, used = keyword :: us ∧ ∀ n rest, 9 * used.length ≤ n →
    declaredVariable n (us ++ rest) = .ok (.declare var value) rest
  | .effect e, used => ∀ n rest, 9 * used.length ≤ n →
    expressionStatement n (used ++ rest) = .ok (.expression e) rest
  | .initial st, used => ∀ n rest, 9 * used.length ≤ n → forInitial n (used ++ rest) = .ok st rest
  | .statement st opened, used => ∀ n rest, 9 * used.length + 1 ≤ n →
    (opened = true → starts isElse rest = false) → statement n (used ++ rest) = .ok st rest
  | .declaration st opened, used => ∀ n rest, 9 * used.length + 2 ≤ n →
    (opened = true → starts isElse rest = false) → declaration n (used ++ rest) = .ok st rest
  | .body ss, used => ∀ n ending read closing rest, 9 * used.length + 3 ≤ n →
    closing.kind = .rightBrace →
    blockRest n ending read (used ++ closing :: rest) = .ok (read.reverse ++ ss) rest

/-! ## Expressions -/

theorem readsBack_literal {t : Token} (kind : isLiteral t = true) :
    ReadsBack (.primary (.literal t)) [t] := by
  intro n rest fuel
  obtain ⟨n, rfl⟩ : ∃ k, n = k + 1 := ⟨n - 1, by omega⟩
  have taken : starts startsPrimary (t :: rest) = true := (Derives.literal kind).starts
  rw [primary]
  refine (bind_eq (takeIf_eq_some taken)).trans ?_
  obtain kind | kind | kind | kind := isLiteral_iff.mp kind <;>
  · simp only [kind]
    rfl

theorem readsBack_name {t : Token} (kind : t.kind = .identifier) :
    ReadsBack (.primary (.name t)) [t] := by
  intro n rest fuel
  obtain ⟨n, rfl⟩ : ∃ k, n = k + 1 := ⟨n - 1, by omega⟩
  have taken : starts startsPrimary (t :: rest) = true := (Derives.name kind).starts
  rw [primary]
  refine (bind_eq (takeIf_eq_some taken)).trans ?_
  simp only [kind]
  rfl

theorem readsBack_group {opening closing : Token} {e : Expr} {ts : List Token}
    (opens : opening.kind = .leftParen) (inner : ReadsBack (.expression e) ts)
    (closes : closing.kind = .rightParen) :
    ReadsBack (.primary (.group e)) (opening :: (ts ++ [closing])) := by
  intro n rest fuel
  simp only [List.length_cons, List.length_append, List.length_nil] at fuel
  obtain ⟨n, rfl⟩ : ∃ k, n = k + 1 := ⟨n - 1, by omega⟩
  rw [List.cons_append, List.append_assoc, List.singleton_append]
  have taken : starts startsPrimary (opening :: (ts ++ closing :: rest)) = true := by
    simp [starts, startsPrimary, Token.isEnd, opens]
  have ended := starts_continues_eq_false closes (by simp) rest
  rw [primary]
  refine (bind_eq (takeIf_eq_some taken)).trans ?_
  simp only [opens]
  refine (bind_eq (inner n (closing :: rest) (by omega) ended)).trans ?_
  exact (bind_eq (expect_eq closes (by decide) _ rest)).trans rfl

/-- Where no argument list follows, an operand is done. -/
theorem callRest_eq {e : Expr} {n : Nat} {rest : List Token} (fuel : 0 < n)
    (follows : starts opensCall rest = false) : callRest n e rest = .ok e rest := by
  obtain ⟨n, rfl⟩ : ∃ k, n = k + 1 := ⟨n - 1, by omega⟩
  rw [callRest]
  exact (bind_eq (takeIf_eq_none follows)).trans rfl

theorem readsBack_operand {e : Expr} {ts : List Token} (derived : Derives (.primary e) ts)
    (plain : ReadsBack (.primary e) ts) : ReadsBack (.operand e) ts := by
  intro n rest fuel follows
  obtain ⟨n, rfl⟩ : ∃ k, n = k + 1 := ⟨n - 1, by omega⟩
  have unsigned : starts isSign (ts ++ rest) = false :=
    starts_eq_false isSign_of_startsPrimary (starts_append derived.starts rest)
  rw [unary]
  refine (bind_eq (takeIf_eq_none unsigned)).trans ?_
  refine (bind_eq (plain n rest (by omega))).trans ?_
  exact callRest_eq (by omega) follows

theorem readsBack_call {callee opening closing : Token} {es : List Expr} {ts : List Token}
    (kind : callee.kind = .identifier) (opens : opening.kind = .leftParen)
    (passed : ReadsBack (.arguments es) ts) (closes : closing.kind = .rightParen) :
    ReadsBack (.operand (.call callee es)) (callee :: opening :: (ts ++ [closing])) := by
  intro n rest fuel follows
  simp only [List.length_cons, List.length_append, List.length_nil] at fuel
  obtain ⟨n, rfl⟩ : ∃ k, n = k + 2 := ⟨n - 2, by omega⟩
  rw [List.cons_append, List.cons_append, List.append_assoc, List.singleton_append]
  have unsigned : starts isSign (callee :: opening :: (ts ++ closing :: rest)) = false :=
    starts_eq_false isSign_of_startsPrimary (starts_append (Derives.name kind).starts _)
  rw [unary]
  refine (bind_eq (takeIf_eq_none unsigned)).trans ?_
  refine (bind_eq (readsBack_name kind (n + 1) _ (by simp; omega))).trans ?_
  rw [passed n callee opening closing rest (by omega) opens closes]
  exact callRest_eq (by omega) follows

theorem readsBack_sign {op : Token} {e : Expr} {ts : List Token} (sign : isSign op = true)
    (inside : op.isEnd = false) (signed : ReadsBack (.operand e) ts) :
    ReadsBack (.operand (.unary op e)) (op :: ts) := by
  intro n rest fuel follows
  rw [List.length_cons] at fuel
  obtain ⟨n, rfl⟩ : ∃ k, n = k + 1 := ⟨n - 1, by omega⟩
  have taken : starts isSign (op :: (ts ++ rest)) = true := by
    simp [starts, sign, inside]
  rw [unary]
  refine (bind_eq (takeIf_eq_some taken)).trans ?_
  exact (bind_eq (signed n rest (by omega) follows)).trans rfl

theorem readsBack_arithmetic {e : Expr} {ts : List Token} (derived : Derives (.operand e) ts)
    (single : ReadsBack (.operand e) ts) : ReadsBack (.arithmetic e) ts := by
  intro n rest fuel follows
  obtain ⟨n, rfl⟩ : ∃ k, n = k + 1 := ⟨n - 1, by omega⟩
  refine ⟨n, ?_, ?_⟩
  · have some := length_pos_of_starts derived.starts
    omega
  · rw [arithmetic]
    exact bind_eq (single n rest (by omega) follows)

theorem arithmeticRest_eq {e : Expr} {n : Nat} {rest : List Token} (fuel : 0 < n)
    (follows : starts (fun t => t.kind == .arithmetic) rest = false) :
    arithmeticRest n e rest = .ok e rest := by
  obtain ⟨n, rfl⟩ : ∃ k, n = k + 1 := ⟨n - 1, by omega⟩
  rw [arithmeticRest]
  exact (bind_eq (takeIf_eq_none follows)).trans rfl

theorem readsBack_joined {left right : Expr} {op : Token} {ls rs : List Token}
    (first : ReadsBack (.arithmetic left) ls) (kind : op.kind = .arithmetic)
    (second : ReadsBack (.operand right) rs) :
    ReadsBack (.arithmetic (.binary left op right)) (ls ++ op :: rs) := by
  intro n rest fuel follows
  simp only [List.length_append, List.length_cons] at fuel ⊢
  rw [List.append_assoc, List.cons_append]
  obtain ⟨m, enough, run⟩ := first n (op :: (rs ++ rest)) (by omega) (by simp [starts, opensCall, kind])
  obtain ⟨m, rfl⟩ : ∃ k, m = k + 1 := ⟨m - 1, by omega⟩
  refine ⟨m, by omega, ?_⟩
  rw [run, arithmeticRest]
  refine (bind_eq (takeIf_eq_some (starts_kind kind (by decide) _))).trans ?_
  exact bind_eq (second m rest (by omega) follows)

theorem readsBack_comparison {e : Expr} {ts : List Token} (derived : Derives (.arithmetic e) ts)
    (single : ReadsBack (.arithmetic e) ts) : ReadsBack (.comparison e) ts := by
  intro n rest fuel follows follows'
  obtain ⟨n, rfl⟩ : ∃ k, n = k + 1 := ⟨n - 1, by omega⟩
  obtain ⟨m, enough, run⟩ := single n rest (by omega) follows
  rw [arithmeticRest_eq (by omega) follows'] at run
  refine ⟨n, ?_, ?_⟩
  · have some := length_pos_of_starts derived.starts
    omega
  · rw [comparison]
    exact bind_eq run

theorem readsBack_compared {left right : Expr} {op : Token} {ls rs : List Token}
    (first : ReadsBack (.comparison left) ls) (kind : op.kind = .compare)
    (second : ReadsBack (.arithmetic right) rs) :
    ReadsBack (.comparison (.binary left op right)) (ls ++ op :: rs) := by
  intro n rest fuel follows follows'
  simp only [List.length_append, List.length_cons] at fuel ⊢
  rw [List.append_assoc, List.cons_append]
  obtain ⟨m, enough, run⟩ := first n (op :: (rs ++ rest)) (by omega) (by simp [starts, opensCall, kind])
    (by simp [starts, kind])
  obtain ⟨m, rfl⟩ : ∃ k, m = k + 1 := ⟨m - 1, by omega⟩
  obtain ⟨m', enough', run'⟩ := second m rest (by omega) follows
  rw [arithmeticRest_eq (by omega) follows'] at run'
  refine ⟨m, by omega, ?_⟩
  rw [run, comparisonRest]
  refine (bind_eq (takeIf_eq_some (starts_kind kind (by decide) _))).trans ?_
  exact bind_eq run'

theorem comparisonRest_eq {e : Expr} {n : Nat} {rest : List Token} (fuel : 0 < n)
    (follows : starts (fun t => t.kind == .compare) rest = false) :
    comparisonRest n e rest = .ok e rest := by
  obtain ⟨n, rfl⟩ : ∃ k, n = k + 1 := ⟨n - 1, by omega⟩
  rw [comparisonRest]
  exact (bind_eq (takeIf_eq_none follows)).trans rfl

theorem readsBack_value {e : Expr} {ts : List Token} (value : ReadsBack (.comparison e) ts) :
    ReadsBack (.expression e) ts := by
  intro n rest fuel follows
  obtain ⟨n, rfl⟩ : ∃ k, n = k + 1 := ⟨n - 1, by omega⟩
  have follows₁ : starts opensCall rest = false :=
    starts_eq_false_of_imp (fun t is => by simp [continues, is]) follows
  have follows₂ : starts (fun t => t.kind == .arithmetic) rest = false :=
    starts_eq_false_of_imp (fun t is => by simp [continues, is]) follows
  have follows₃ : starts (fun t => t.kind == .compare) rest = false :=
    starts_eq_false_of_imp (fun t is => by simp [continues, is]) follows
  have follows₄ : starts (fun t => t.is .operator "=") rest = false :=
    starts_eq_false_of_imp (fun t is => by simp [continues, is]) follows
  obtain ⟨m, enough, run⟩ := value n rest (by omega) follows₁ follows₂
  rw [comparisonRest_eq (by omega) follows₃] at run
  rw [expression]
  refine (bind_eq run).trans ?_
  exact (bind_eq (takeIf_eq_none follows₄)).trans rfl

theorem readsBack_assigned {target equals : Token} {e : Expr} {ts : List Token}
    (kind : target.kind = .identifier) (sign : equals.is .operator "=" = true)
    (value : ReadsBack (.expression e) ts) :
    ReadsBack (.expression (.assign target e)) (target :: equals :: ts) := by
  intro n rest fuel follows
  simp only [List.length_cons] at fuel
  obtain ⟨n, rfl⟩ : ∃ k, n = k + 1 := ⟨n - 1, by omega⟩
  have operator := (Token.is_iff.mp sign).1
  -- the target is read as a comparison of its own
  have named := Derives.name kind
  have alone : ReadsBack (.comparison (.name target)) [target] :=
    readsBack_comparison (.operand (.primary named))
      (readsBack_arithmetic (.primary named) (readsBack_operand named (readsBack_name kind)))
  obtain ⟨m, enough, run⟩ := alone n (equals :: (ts ++ rest)) (by simp; omega)
    (by simp [starts, opensCall, operator]) (by simp [starts, operator])
  rw [List.length_singleton] at enough
  rw [comparisonRest_eq (by omega) (by simp [starts, operator])] at run
  rw [expression]
  refine (bind_eq run).trans ?_
  refine (bind_eq (takeIf_eq_some (starts_text sign (by decide) _))).trans ?_
  exact (bind_eq (value n rest (by omega) follows)).trans rfl

/-! ## Lists -/

theorem readsBack_lastArgument {e : Expr} {ts : List Token} (value : ReadsBack (.expression e) ts) :
    ReadsBack (.argumentList [e]) ts := by
  intro n read rest fuel few follows
  obtain ⟨n, rfl⟩ : ∃ k, n = k + 1 := ⟨n - 1, by omega⟩
  have ended : starts continues rest = false :=
    starts_eq_false_of_imp (fun t is => by simp [is]) follows
  have last : starts (fun t => t.kind == .comma) rest = false :=
    starts_eq_false_of_imp (fun t is => by simp [is]) follows
  rw [argumentList, if_neg (by rw [List.length_singleton] at few; omega)]
  refine (bind_eq (value n rest (by omega) ended)).trans ?_
  refine (bind_eq (takeIf_eq_none last)).trans ?_
  rw [← List.reverse_cons]
  rfl

theorem readsBack_nextArgument {e : Expr} {ts : List Token} {comma : Token} {es : List Expr}
    {us : List Token} (value : ReadsBack (.expression e) ts) (kind : comma.kind = .comma)
    (further : ReadsBack (.argumentList es) us) :
    ReadsBack (.argumentList (e :: es)) (ts ++ comma :: us) := by
  intro n read rest fuel few follows
  simp only [List.length_append, List.length_cons] at fuel few
  obtain ⟨n, rfl⟩ : ∃ k, n = k + 1 := ⟨n - 1, by omega⟩
  rw [List.append_assoc, List.cons_append, argumentList, if_neg (by omega)]
  refine (bind_eq (value n _ (by omega) (starts_continues_eq_false kind (by simp) _))).trans ?_
  refine (bind_eq (takeIf_eq_some (starts_kind kind (by decide) _))).trans ?_
  refine (further n (e :: read) rest (by omega) (by simp only [List.length_cons]; omega) follows).trans ?_
  simp

theorem readsBack_noArguments : ReadsBack (.arguments []) [] := by
  intro n callee opening closing rest fuel opens closes
  rw [callRest]
  refine (bind_eq (takeIf_eq_some (starts_kind opens (by decide) _))).trans ?_
  refine (bind_eq (nextIs_eq (starts_kind closes (by decide) rest))).trans ?_
  exact bind_eq (expect_eq closes (by decide) _ rest)

theorem readsBack_someArguments {es : List Expr} {ts : List Token} (derived : Derives (.argumentList es) ts)
    (listed : ReadsBack (.argumentList es) ts) (few : es.length ≤ maxArguments) :
    ReadsBack (.arguments es) ts := by
  intro n callee opening closing rest fuel opens closes
  have present : starts (fun t => t.kind == .rightParen) (ts ++ closing :: rest) = false :=
    starts_eq_false (not_kind_of_startsExpression (by decide)) (starts_append derived.starts _)
  have ended : starts (fun t => continues t || t.kind == .comma) (closing :: rest) = false := by
    simp [starts, continues, opensCall, Token.is, closes]
  rw [callRest]
  refine (bind_eq (takeIf_eq_some (starts_kind opens (by decide) _))).trans ?_
  refine (bind_eq (nextIs_eq present)).trans ?_
  refine (bind_eq (listed n [] (closing :: rest) (by omega) (by simpa using few) ended)).trans ?_
  exact bind_eq (expect_eq closes (by decide) _ rest)

theorem readsBack_lastParameter {param : Token} (kind : param.kind = .identifier) :
    ReadsBack (.parameterList [param]) [param] := by
  intro n read rest fuel few follows
  rw [List.length_singleton] at fuel few
  obtain ⟨n, rfl⟩ : ∃ k, n = k + 1 := ⟨n - 1, by omega⟩
  rw [parameterList, if_neg (by omega)]
  refine (bind_eq (expect_eq kind (by decide) _ rest)).trans ?_
  refine (bind_eq (takeIf_eq_none follows)).trans ?_
  rw [← List.reverse_cons]
  rfl

theorem readsBack_nextParameter {param comma : Token} {params ts : List Token}
    (kind : param.kind = .identifier) (separated : comma.kind = .comma)
    (further : ReadsBack (.parameterList params) ts) :
    ReadsBack (.parameterList (param :: params)) (param :: comma :: ts) := by
  intro n read rest fuel few follows
  simp only [List.length_cons] at fuel few
  obtain ⟨n, rfl⟩ : ∃ k, n = k + 1 := ⟨n - 1, by omega⟩
  rw [parameterList, if_neg (by omega)]
  refine (bind_eq (expect_eq kind (by decide) _ _)).trans ?_
  refine (bind_eq (takeIf_eq_some (starts_kind separated (by decide) _))).trans ?_
  refine (further n (param :: read) rest (by omega) (by simp only [List.length_cons]; omega) follows).trans ?_
  simp

theorem readsBack_noParameters : ReadsBack (.parameters []) [] := by
  intro n name opening closing start rest fuel kind opens closes starts
  rw [functionHead]
  refine (bind_eq (expect_eq kind (by decide) _ _)).trans ?_
  refine (bind_eq (expect_eq opens (by decide) _ _)).trans ?_
  refine (bind_eq (nextIs_eq (starts_kind closes (by decide) _))).trans ?_
  refine (bind_eq (expect_eq closes (by decide) _ _)).trans ?_
  exact (bind_eq (expect_eq starts (by decide) _ _)).trans rfl

theorem readsBack_someParameters {params ts : List Token} (derived : Derives (.parameterList params) ts)
    (listed : ReadsBack (.parameterList params) ts) (few : params.length ≤ maxArguments) :
    ReadsBack (.parameters params) ts := by
  intro n name opening closing start rest fuel kind opens closes starts
  have present : Grammar.starts (fun t => t.kind == .rightParen) (ts ++ closing :: start :: rest) = false :=
    starts_eq_false (fun t is => by simp [eq_of_beq is]) (starts_append derived.starts _)
  rw [functionHead]
  refine (bind_eq (expect_eq kind (by decide) _ _)).trans ?_
  refine (bind_eq (expect_eq opens (by decide) _ _)).trans ?_
  refine (bind_eq (nextIs_eq present)).trans ?_
  refine (bind_eq (listed n [] _ fuel (by simpa using few) (by simp [Grammar.starts, closes]))).trans ?_
  refine (bind_eq (expect_eq closes (by decide) _ _)).trans ?_
  exact (bind_eq (expect_eq starts (by decide) _ _)).trans rfl

/-! ## Clauses -/

theorem readsBack_noClause {ending : Kind} {closing : Token} (ends : closing.kind = ending) :
    ReadsBack (.clause ending none) [closing] := by
  intro n cause rest fuel either
  have inside : ending ≠ .endOfFile := by
    obtain rfl | rfl := either <;> decide
  rw [forClause]
  refine (bind_eq (nextIs_eq (starts_kind ends inside _))).trans ?_
  exact (bind_eq (expect_eq ends inside _ _)).trans rfl

theorem readsBack_someClause {ending : Kind} {closing : Token} {e : Expr} {ts : List Token}
    (derived : Derives (.expression e) ts) (value : ReadsBack (.expression e) ts)
    (ends : closing.kind = ending) : ReadsBack (.clause ending (some e)) (ts ++ [closing]) := by
  intro n cause rest fuel either
  simp only [List.length_append, List.length_singleton] at fuel
  rw [List.append_assoc, List.singleton_append, forClause]
  have first := starts_append derived.starts (closing :: rest)
  have present : starts (fun t => t.kind == ending) (ts ++ closing :: rest) = false := by
    obtain rfl | rfl := either
    · exact starts_eq_false (not_kind_of_startsExpression (by decide)) first
    · exact starts_eq_false (not_kind_of_startsExpression (by decide)) first
  have ended := starts_continues_eq_false ends (either.imp_right .inl) rest
  have inside : ending ≠ .endOfFile := by
    obtain rfl | rfl := either <;> decide
  refine (bind_eq (nextIs_eq present)).trans ?_
  refine (bind_eq (value n _ (by omega) ended)).trans ?_
  exact (bind_eq (expect_eq ends inside _ _)).trans rfl

theorem readsBack_unset {keyword var closing : Token} (kind : var.kind = .identifier)
    (ends : closing.kind = .semicolon) : ReadsBack (.variable var none) [keyword, var, closing] := by
  refine ⟨keyword, [var, closing], rfl, fun n rest fuel => ?_⟩
  rw [declaredVariable]
  refine (bind_eq (expect_eq kind (by decide) _ _)).trans ?_
  refine (bind_eq (takeIf_eq_none (by simp [starts, Token.is, ends]))).trans ?_
  exact (bind_eq (expect_eq ends (by decide) _ _)).trans rfl

theorem readsBack_set {keyword var equals closing : Token} {e : Expr} {ts : List Token}
    (kind : var.kind = .identifier) (sign : equals.is .operator "=" = true)
    (value : ReadsBack (.expression e) ts) (ends : closing.kind = .semicolon) :
    ReadsBack (.variable var (some e)) (keyword :: var :: equals :: (ts ++ [closing])) := by
  refine ⟨keyword, var :: equals :: (ts ++ [closing]), rfl, fun n rest fuel => ?_⟩
  simp only [List.length_cons, List.length_append, List.length_nil] at fuel
  rw [List.cons_append, List.cons_append, List.append_assoc, List.singleton_append, declaredVariable]
  refine (bind_eq (expect_eq kind (by decide) _ _)).trans ?_
  refine (bind_eq (takeIf_eq_some (starts_text sign (by decide) _))).trans ?_
  refine (bind_eq (value n _ (by omega) (starts_continues_eq_false ends (by simp) _))).trans ?_
  exact (bind_eq (expect_eq ends (by decide) _ _)).trans rfl

theorem readsBack_effect {e : Expr} {ts : List Token} {closing : Token}
    (value : ReadsBack (.expression e) ts) (ends : closing.kind = .semicolon) :
    ReadsBack (.effect e) (ts ++ [closing]) := by
  intro n rest fuel
  simp only [List.length_append, List.length_singleton] at fuel
  rw [List.append_assoc, List.singleton_append, expressionStatement]
  refine (bind_eq (value n _ (by omega) (starts_continues_eq_false ends (by simp) _))).trans ?_
  exact (bind_eq (expect_eq ends (by decide) _ _)).trans rfl

theorem readsBack_noInitial {closing : Token} (ends : closing.kind = .semicolon) :
    ReadsBack (.initial none) [closing] := by
  intro n rest fuel
  rw [forInitial]
  exact (bind_eq (takeIf_eq_some (starts_kind ends (by decide) _))).trans rfl

theorem readsBack_variableInitial {var : Token} {value : Option Expr} {ts : List Token}
    (derived : Derives (.variable var value) ts) (first : ReadsBack (.variable var value) ts) :
    ReadsBack (.initial (some (.declare var value))) ts := by
  intro n rest fuel
  obtain ⟨keyword, us, rfl, run⟩ := first
  have keyed : starts (fun t => t.is .keyword "var") (keyword :: (us ++ rest)) = true :=
    starts_append derived.starts rest
  have present : starts (fun t => t.kind == .semicolon) (keyword :: (us ++ rest)) = false :=
    starts_eq_false (fun t is => by simp [(Token.is_iff.mp is).1]) keyed
  rw [List.cons_append, forInitial]
  refine (bind_eq (takeIf_eq_none present)).trans ?_
  refine (bind_eq (takeIf_eq_some keyed)).trans ?_
  exact map_eq (run n rest fuel)

theorem readsBack_effectInitial {e : Expr} {ts : List Token} (derived : Derives (.effect e) ts)
    (first : ReadsBack (.effect e) ts) : ReadsBack (.initial (some (.expression e))) ts := by
  intro n rest fuel
  have plain := starts_append derived.starts rest
  have present : starts (fun t => t.kind == .semicolon) (ts ++ rest) = false :=
    starts_eq_false (not_kind_of_startsExpression (by decide)) plain
  have undeclared : starts (fun t => t.is .keyword "var") (ts ++ rest) = false :=
    starts_eq_false (fun t is => by simp [Token.is, not_kind_of_startsExpression _ t is]) plain
  rw [forInitial]
  refine (bind_eq (takeIf_eq_none present)).trans ?_
  refine (bind_eq (takeIf_eq_none undeclared)).trans ?_
  exact map_eq (first n rest fuel)

/-! ## Statements -/

theorem condition_eq {opening closing : Token} {e : Expr} {ts : List Token} {n : Nat}
    (fuel : 9 * ts.length + 5 ≤ n) (opens : opening.kind = .leftParen)
    (tested : ReadsBack (.expression e) ts) (closes : closing.kind = .rightParen) (open? close? : Cause)
    (rest : List Token) :
    condition n open? close? (opening :: (ts ++ closing :: rest)) = .ok e rest := by
  rw [condition]
  refine (bind_eq (expect_eq opens (by decide) _ _)).trans ?_
  refine (bind_eq (tested n _ fuel (starts_continues_eq_false closes (by simp) _))).trans ?_
  exact (bind_eq (expect_eq closes (by decide) _ _)).trans rfl

theorem statement_keyword {keyword : Token} (kind : keyword.kind = .keyword) (n : Nat)
    (rest : List Token) : statement (n + 1) (keyword :: rest) = keywordStatement n keyword rest := by
  rw [statement]
  refine (bind_eq (takeIf_eq_none (by simp [starts, kind]))).trans ?_
  exact bind_eq (takeIf_eq_some (starts_kind kind (by decide) _))

theorem readsBack_effectStatement {e : Expr} {ts : List Token} (derived : Derives (.effect e) ts)
    (simple : ReadsBack (.effect e) ts) : ReadsBack (.statement (.expression e) false) ts := by
  intro n rest fuel _
  obtain ⟨n, rfl⟩ : ∃ k, n = k + 1 := ⟨n - 1, by omega⟩
  have plain := starts_append derived.starts rest
  have noBlock : starts (fun t => t.kind == .leftBrace) (ts ++ rest) = false :=
    starts_eq_false (not_kind_of_startsExpression (by decide)) plain
  have noKeyword : starts (fun t => t.kind == .keyword) (ts ++ rest) = false :=
    starts_eq_false (not_kind_of_startsExpression (by decide)) plain
  rw [statement]
  refine (bind_eq (takeIf_eq_none noBlock)).trans ?_
  refine (bind_eq (takeIf_eq_none noKeyword)).trans ?_
  exact simple n rest (by omega)

theorem readsBack_print {keyword closing : Token} {e : Expr} {ts : List Token}
    (keyed : keyword.is .keyword "screenit" = true) (value : ReadsBack (.expression e) ts)
    (ends : closing.kind = .semicolon) :
    ReadsBack (.statement (.print e) false) (keyword :: (ts ++ [closing])) := by
  intro n rest fuel _
  simp only [List.length_cons, List.length_append, List.length_nil] at fuel
  obtain ⟨n, rfl⟩ : ∃ k, n = k + 2 := ⟨n - 2, by omega⟩
  obtain ⟨kind, text⟩ := Token.is_iff.mp keyed
  rw [List.cons_append, List.append_assoc, List.singleton_append, statement_keyword kind, keywordStatement]
  simp only [text]
  refine (bind_eq (value n _ (by omega) (starts_continues_eq_false ends (by simp) _))).trans ?_
  exact (bind_eq (expect_eq ends (by decide) _ _)).trans rfl

theorem readsBack_ret {keyword : Token} {e : Option Expr} {ts : List Token}
    (keyed : keyword.is .keyword "return" = true) (value : ReadsBack (.clause .semicolon e) ts) :
    ReadsBack (.statement (.ret keyword e) false) (keyword :: ts) := by
  intro n rest fuel _
  simp only [List.length_cons] at fuel
  obtain ⟨n, rfl⟩ : ∃ k, n = k + 2 := ⟨n - 2, by omega⟩
  obtain ⟨kind, text⟩ := Token.is_iff.mp keyed
  rw [List.cons_append, statement_keyword kind, keywordStatement]
  simp only [text, returned_eq]
  exact map_eq (value n _ rest (by omega) (.inl rfl))

theorem readsBack_brk {keyword closing : Token} (keyed : keyword.is .keyword "break" = true)
    (ends : closing.kind = .semicolon) :
    ReadsBack (.statement (.brk keyword) false) [keyword, closing] := by
  intro n rest fuel _
  simp only [List.length_cons] at fuel
  obtain ⟨n, rfl⟩ : ∃ k, n = k + 2 := ⟨n - 2, by omega⟩
  obtain ⟨kind, text⟩ := Token.is_iff.mp keyed
  rw [List.cons_append, statement_keyword kind, keywordStatement]
  simp only [text]
  exact (bind_eq (expect_eq ends (by decide) _ _)).trans rfl

theorem readsBack_block {opening closing : Token} {ss : List Stmt} {ts : List Token}
    (opens : opening.kind = .leftBrace) (inner : ReadsBack (.body ss) ts)
    (closes : closing.kind = .rightBrace) :
    ReadsBack (.statement (.block ss) false) (opening :: (ts ++ [closing])) := by
  intro n rest fuel _
  simp only [List.length_cons, List.length_append, List.length_nil] at fuel
  obtain ⟨n, rfl⟩ : ∃ k, n = k + 1 := ⟨n - 1, by omega⟩
  rw [List.cons_append, List.append_assoc, List.singleton_append, statement]
  refine (bind_eq (takeIf_eq_some (starts_kind opens (by decide) _))).trans ?_
  exact map_eq (inner n _ [] closing rest (by omega) closes)

theorem readsBack_ifThen {keyword opening closing : Token} {test : Expr} {ts : List Token} {yes : Stmt}
    {opened : Bool} {us : List Token} (keyed : keyword.is .keyword "if" = true)
    (opens : opening.kind = .leftParen) (tested : ReadsBack (.expression test) ts)
    (closes : closing.kind = .rightParen) (first : ReadsBack (.statement yes opened) us) :
    ReadsBack (.statement (.ifElse test yes none) true) (keyword :: opening :: (ts ++ closing :: us)) := by
  intro n rest fuel follows
  simp only [List.length_cons, List.length_append] at fuel
  obtain ⟨n, rfl⟩ : ∃ k, n = k + 2 := ⟨n - 2, by omega⟩
  obtain ⟨kind, text⟩ := Token.is_iff.mp keyed
  have alone := follows rfl
  rw [List.cons_append, List.cons_append, List.append_assoc, List.cons_append, statement_keyword kind,
    keywordStatement]
  simp only [text]
  refine (bind_eq (condition_eq (by omega) opens tested closes _ _ _)).trans ?_
  refine (bind_eq (first n rest (by omega) fun _ => alone)).trans ?_
  exact (bind_eq (takeIf_eq_none alone)).trans rfl

theorem readsBack_ifElse {keyword opening closing between : Token} {test : Expr} {ts : List Token}
    {yes no : Stmt} {opened : Bool} {us vs : List Token} (keyed : keyword.is .keyword "if" = true)
    (opens : opening.kind = .leftParen) (tested : ReadsBack (.expression test) ts)
    (closes : closing.kind = .rightParen) (first : ReadsBack (.statement yes false) us)
    (parted : between.is .keyword "else" = true) (second : ReadsBack (.statement no opened) vs) :
    ReadsBack (.statement (.ifElse test yes (some no)) opened)
      (keyword :: opening :: (ts ++ closing :: (us ++ between :: vs))) := by
  intro n rest fuel follows
  simp only [List.length_cons, List.length_append] at fuel
  obtain ⟨n, rfl⟩ : ∃ k, n = k + 2 := ⟨n - 2, by omega⟩
  obtain ⟨kind, text⟩ := Token.is_iff.mp keyed
  rw [List.cons_append, List.cons_append, List.append_assoc, List.cons_append, List.append_assoc,
    List.cons_append, statement_keyword kind, keywordStatement]
  simp only [text]
  refine (bind_eq (condition_eq (by omega) opens tested closes _ _ _)).trans ?_
  refine (bind_eq (first n _ (by omega) fun isOpened => absurd isOpened Bool.false_ne_true)).trans ?_
  refine (bind_eq (takeIf_eq_some (starts_text parted (by decide) _))).trans ?_
  exact (bind_eq (second n rest (by omega) follows)).trans rfl

theorem readsBack_whileLoop {keyword opening closing : Token} {test : Expr} {ts : List Token}
    {body : Stmt} {opened : Bool} {us : List Token} (keyed : keyword.is .keyword "while" = true)
    (opens : opening.kind = .leftParen) (tested : ReadsBack (.expression test) ts)
    (closes : closing.kind = .rightParen) (repeated : ReadsBack (.statement body opened) us) :
    ReadsBack (.statement (.whileLoop test body) opened)
      (keyword :: opening :: (ts ++ closing :: us)) := by
  intro n rest fuel follows
  simp only [List.length_cons, List.length_append] at fuel
  obtain ⟨n, rfl⟩ : ∃ k, n = k + 2 := ⟨n - 2, by omega⟩
  obtain ⟨kind, text⟩ := Token.is_iff.mp keyed
  rw [List.cons_append, List.cons_append, List.append_assoc, List.cons_append, statement_keyword kind,
    keywordStatement]
  simp only [text]
  refine (bind_eq (condition_eq (by omega) opens tested closes _ _ _)).trans ?_
  exact (bind_eq (repeated n rest (by omega) follows)).trans rfl

theorem readsBack_forLoop {keyword opening : Token} {initial : Option Stmt} {ts : List Token}
    {test step : Option Expr} {us vs : List Token} {body : Stmt} {opened : Bool} {ws : List Token}
    (keyed : keyword.is .keyword "for" = true) (opens : opening.kind = .leftParen)
    (first : ReadsBack (.initial initial) ts) (tested : ReadsBack (.clause .semicolon test) us)
    (stepped : ReadsBack (.clause .rightParen step) vs)
    (repeated : ReadsBack (.statement body opened) ws) :
    ReadsBack (.statement (Stmt.desugarFor initial test step body) opened)
      (keyword :: opening :: (ts ++ (us ++ (vs ++ ws)))) := by
  intro n rest fuel follows
  simp only [List.length_cons, List.length_append] at fuel
  obtain ⟨n, rfl⟩ : ∃ k, n = k + 2 := ⟨n - 2, by omega⟩
  obtain ⟨kind, text⟩ := Token.is_iff.mp keyed
  rw [List.cons_append, List.cons_append, List.append_assoc, List.append_assoc, List.append_assoc,
    statement_keyword kind, keywordStatement]
  simp only [text]
  refine (bind_eq (expect_eq opens (by decide) _ _)).trans ?_
  refine (bind_eq (first n _ (by omega))).trans ?_
  refine (bind_eq (tested n _ _ (by omega) (.inl rfl))).trans ?_
  refine (bind_eq (stepped n _ _ (by omega) (.inr rfl))).trans ?_
  exact (bind_eq (repeated n rest (by omega) follows)).trans rfl

/-! ## Declarations -/

theorem readsBack_variableDeclaration {var : Token} {value : Option Expr} {ts : List Token}
    (derived : Derives (.variable var value) ts) (declared : ReadsBack (.variable var value) ts) :
    ReadsBack (.declaration (.declare var value) false) ts := by
  intro n rest fuel _
  obtain ⟨n, rfl⟩ : ∃ k, n = k + 1 := ⟨n - 1, by omega⟩
  obtain ⟨keyword, us, rfl, run⟩ := declared
  have keyed : starts (fun t => t.is .keyword "var") (keyword :: (us ++ rest)) = true :=
    starts_append derived.starts rest
  have noFunction : starts (fun t => t.is .keyword "func") (keyword :: (us ++ rest)) = false :=
    starts_eq_false (fun t is => by simp [Token.is, Token.is_iff.mp is]) keyed
  rw [List.cons_append, declaration]
  refine (bind_eq (takeIf_eq_none noFunction)).trans ?_
  refine (bind_eq (takeIf_eq_some keyed)).trans ?_
  exact run n rest (by omega)

theorem readsBack_function {keyword name opening closing start brace : Token} {params ts : List Token}
    {body : List Stmt} {us : List Token} (keyed : keyword.is .keyword "func" = true)
    (kind : name.kind = .identifier) (opens : opening.kind = .leftParen)
    (given : ReadsBack (.parameters params) ts) (closes : closing.kind = .rightParen)
    (starts : start.kind = .leftBrace) (inner : ReadsBack (.body body) us)
    (ends : brace.kind = .rightBrace) :
    ReadsBack (.declaration (.function name params body) false)
      (keyword :: name :: opening :: (ts ++ closing :: start :: (us ++ [brace]))) := by
  intro n rest fuel _
  simp only [List.length_cons, List.length_append, List.length_nil] at fuel
  obtain ⟨n, rfl⟩ : ∃ k, n = k + 1 := ⟨n - 1, by omega⟩
  rw [List.cons_append, List.cons_append, List.cons_append, List.append_assoc, List.cons_append,
    List.cons_append, List.append_assoc, List.singleton_append, declaration]
  refine (bind_eq (takeIf_eq_some (starts_text keyed (by decide) _))).trans ?_
  refine (bind_eq (given n name opening closing start _ (by omega) kind opens closes starts)).trans ?_
  exact (bind_eq (inner n _ [] brace rest (by omega) ends)).trans rfl

theorem readsBack_statement {st : Stmt} {opened : Bool} {ts : List Token}
    (derived : Derives (.statement st opened) ts) (plain : ReadsBack (.statement st opened) ts) :
    ReadsBack (.declaration st opened) ts := by
  intro n rest fuel follows
  obtain ⟨n, rfl⟩ : ∃ k, n = k + 1 := ⟨n - 1, by omega⟩
  have first := starts_append derived.starts rest
  have noFunction : starts (fun t => t.is .keyword "func") (ts ++ rest) = false :=
    starts_eq_false (not_declaring_of_startsStatement (by decide)) first
  have noVariable : starts (fun t => t.is .keyword "var") (ts ++ rest) = false :=
    starts_eq_false (not_declaring_of_startsStatement (by decide)) first
  rw [declaration]
  refine (bind_eq (takeIf_eq_none noFunction)).trans ?_
  refine (bind_eq (takeIf_eq_none noVariable)).trans ?_
  exact plain n rest (by omega) follows

theorem readsBack_emptyBody : ReadsBack (.body []) [] := by
  intro n ending read closing rest fuel closes
  obtain ⟨n, rfl⟩ : ∃ k, n = k + 1 := ⟨n - 1, by omega⟩
  rw [blockRest, List.append_nil]
  exact (bind_eq (takeIf_eq_some (starts_kind closes (by decide) _))).trans rfl

/-- No `else` follows a declaration in a block. -/
theorem starts_isElse_of_body {ss : List Stmt} {ts : List Token} (derived : Derives (.body ss) ts)
    {closing : Token} (closes : closing.kind = .rightBrace) (rest : List Token) :
    starts isElse (ts ++ closing :: rest) = false := by
  cases derived with
  | emptyBody => simp [starts, isElse, Token.is, closes]
  | nextInBody first further =>
    rw [List.append_assoc]
    exact starts_eq_false isElse_of_startsDeclaration (starts_append first.starts _)

theorem readsBack_nextInBody {st : Stmt} {opened : Bool} {ts : List Token} {ss : List Stmt}
    {us : List Token} (derived : Derives (.declaration st opened) ts)
    (first : ReadsBack (.declaration st opened) ts) (behind : Derives (.body ss) us)
    (further : ReadsBack (.body ss) us) : ReadsBack (.body (st :: ss)) (ts ++ us) := by
  intro n ending read closing rest fuel closes
  rw [List.length_append] at fuel
  obtain ⟨n, rfl⟩ : ∃ k, n = k + 1 := ⟨n - 1, by omega⟩
  have some := length_pos_of_starts derived.starts
  have started := starts_append derived.starts (us ++ closing :: rest)
  have unclosed : starts (fun t => t.kind == .rightBrace) (ts ++ (us ++ closing :: rest)) = false :=
    starts_eq_false (not_kind_of_startsDeclaration (by decide)) started
  rw [List.append_assoc, blockRest]
  refine (bind_eq (takeIf_eq_none unclosed)).trans ?_
  refine (bind_eq rfl).trans ?_
  rw [if_neg (by rw [atEnd_eq_false started]; exact Bool.false_ne_true)]
  refine (bind_eq (first n _ (by omega) fun _ => starts_isElse_of_body behind closes rest)).trans ?_
  refine (further n ending (st :: read) closing rest (by omega) closes).trans ?_
  simp

theorem readsBack_of_derives {p : Phrase} {ts : List Token} (derived : Derives p ts) : ReadsBack p ts := by
  induction derived with
  | literal kind => exact readsBack_literal kind
  | name kind => exact readsBack_name kind
  | group opens _ closes inner => exact readsBack_group opens inner closes
  | primary plain ih => exact readsBack_operand plain ih
  | call kind opens _ closes passed => exact readsBack_call kind opens passed closes
  | sign sign signed ih =>
    have inside := (Derives.sign sign signed).isEnd_eq_false _ (List.mem_cons_self ..)
    exact readsBack_sign sign inside ih
  | operand single ih => exact readsBack_arithmetic single ih
  | joined _ kind _ first second => exact readsBack_joined first kind second
  | arithmetic single ih => exact readsBack_comparison single ih
  | compared _ kind _ first second => exact readsBack_compared first kind second
  | comparison _ value => exact readsBack_value value
  | assigned kind sign _ value => exact readsBack_assigned kind sign value
  | lastArgument _ value => exact readsBack_lastArgument value
  | nextArgument _ kind _ value further => exact readsBack_nextArgument value kind further
  | noArguments => exact readsBack_noArguments
  | someArguments derived few listed => exact readsBack_someArguments derived listed few
  | lastParameter kind => exact readsBack_lastParameter kind
  | nextParameter kind separated _ further => exact readsBack_nextParameter kind separated further
  | noParameters => exact readsBack_noParameters
  | someParameters derived few listed => exact readsBack_someParameters derived listed few
  | noClause ends _ => exact readsBack_noClause ends
  | someClause derived ends _ value => exact readsBack_someClause derived value ends
  | unset _ kind ends => exact readsBack_unset kind ends
  | set _ kind sign _ ends value => exact readsBack_set kind sign value ends
  | effect _ ends value => exact readsBack_effect value ends
  | noInitial ends => exact readsBack_noInitial ends
  | variableInitial derived first => exact readsBack_variableInitial derived first
  | effectInitial derived first => exact readsBack_effectInitial derived first
  | effectStatement derived simple => exact readsBack_effectStatement derived simple
  | print keyed _ ends value => exact readsBack_print keyed value ends
  | ret keyed _ value => exact readsBack_ret keyed value
  | brk keyed ends => exact readsBack_brk keyed ends
  | block opens _ closes inner => exact readsBack_block opens inner closes
  | ifThen keyed opens _ closes _ tested first => exact readsBack_ifThen keyed opens tested closes first
  | ifElse keyed opens _ closes _ parted _ tested first second =>
    exact readsBack_ifElse keyed opens tested closes first parted second
  | whileLoop keyed opens _ closes _ tested repeated =>
    exact readsBack_whileLoop keyed opens tested closes repeated
  | forLoop keyed opens _ _ _ _ first tested stepped repeated =>
    exact readsBack_forLoop keyed opens first tested stepped repeated
  | variableDeclaration derived declared => exact readsBack_variableDeclaration derived declared
  | function keyed kind opens _ closes starts _ ends given inner =>
    exact readsBack_function keyed kind opens given closes starts inner ends
  | statement derived plain => exact readsBack_statement derived plain
  | emptyBody => exact readsBack_emptyBody
  | nextInBody derived behind first further => exact readsBack_nextInBody derived first behind further

/-! ## Programs -/

theorem isElse_of_isStray {t : Token} (stray : isStray t = true) : isElse t = false := by
  refine Bool.eq_false_iff.mpr fun is => ?_
  obtain ⟨kind, text⟩ := Token.is_iff.mp is
  simp [isStray, kind, text] at stray

theorem starts_isElse_of_spells {ts : List Token} {ss : List Stmt} (spells : Spells ts ss)
    {rest : List Token} (follows : starts isElse rest = false) : starts isElse (ts ++ rest) = false := by
  cases spells with
  | done => exact follows
  | stray _ stray _ => simp [starts, isElse_of_isStray stray]
  | next _ first _ =>
    rw [List.append_assoc]
    exact starts_eq_false isElse_of_startsDeclaration (starts_append first.starts _)

theorem opened_of_isFunction {st : Stmt} {opened : Bool} {ts : List Token}
    (derived : Derives (.declaration st opened) ts) (function : st.isFunction = true) : opened = false := by
  cases derived with
  | statement derived =>
    obtain ⟨_, branch, _⟩ := derived.shaped
    cases st with
    | function _ _ _ => cases branch
    | _ => cases function
  | _ => rfl

/-- The statements that the tokens spell are read, and then the parser goes on with what follows.  An
    `else` there would belong to the last statement, unless that is a function. -/
theorem statements_append {ts : List Token} {ss : List Stmt} (spells : Spells ts ss) (n : Nat)
    (fuel : 9 * ts.length + 3 ≤ n) (read : List Stmt) (rest : List Token)
    (follows : ss.all Stmt.isFunction = true ∨ starts isElse rest = false) :
    ∃ m, n ≤ m + ts.length ∧ statements n read (ts ++ rest) = statements m (ss.reverse ++ read) rest := by
  induction spells generalizing n read with
  | done => exact ⟨n, Nat.le_add_right .., rfl⟩
  | stray inside stray _ ih =>
    simp only [List.length_cons] at fuel ⊢
    obtain ⟨n, rfl⟩ : ∃ k, n = k + 1 := ⟨n - 1, by omega⟩
    obtain ⟨m, enough, run⟩ := ih n (by omega) read follows
    refine ⟨m, by omega, ?_⟩
    rw [List.cons_append]
    simp only [statements, inside, stray, if_true]
    exact run
  | @next t us st opened ts ss kept first further ih =>
    simp only [List.length_append, List.length_cons] at fuel ⊢
    rw [List.all_cons, Bool.and_eq_true] at follows
    obtain ⟨n, rfl⟩ : ∃ k, n = k + 1 := ⟨n - 1, by omega⟩
    obtain ⟨m, enough, run⟩ := ih n (by omega) (st :: read) (follows.imp_left And.right)
    refine ⟨m, by omega, ?_⟩
    have inside := first.isEnd_eq_false t (List.mem_cons_self ..)
    have closed : opened = true → starts isElse (ts ++ rest) = false := by
      intro isOpened
      obtain ⟨function, _⟩ | follows := follows
      · rw [opened_of_isFunction first function] at isOpened
        cases isOpened
      · exact starts_isElse_of_spells further follows
    have taken := readsBack_of_derives first n (ts ++ rest) (by simp only [List.length_cons]; omega) closed
    rw [List.cons_append] at taken
    rw [List.append_assoc, List.cons_append]
    simp only [statements, inside, kept, taken]
    simpa using run

/-- Where the input ends, the program is done. -/
theorem statements_atEnd {n : Nat} (fuel : 0 < n) (read : List Stmt) (rest : List Token)
    (ends : atEnd rest = true) : statements n read rest = .ok read.reverse rest := by
  obtain ⟨n, rfl⟩ : ∃ k, n = k + 1 := ⟨n - 1, by omega⟩
  cases rest with
  | nil => rfl
  | cons t behind => simp [statements, show t.isEnd = true from ends]

end Parser

/-- A spelling of a program is read as that program. -/
theorem parseTokens_of_spells {ts : List Token} {ss : List Stmt} (spells : Grammar.Spells ts ss) :
    parseTokens ts = .ok ss := by
  obtain ⟨p, closed⟩ : ∃ p, closeTokens ts = ts ++ [Token.endOfFile p] := by
    rw [closeTokens]
    split
    · rename_i last found
      rw [spells.isEnd_eq_false last (List.mem_of_getLast? found)]
      exact ⟨_, rfl⟩
    · rename_i none
      exact ⟨_, by rw [List.getLast?_eq_none_iff.mp none]; rfl⟩
  have length : (closeTokens ts).length = ts.length + 1 := by simp [closed]
  have fuel : 9 * ts.length + 3 ≤ Parser.steps (closeTokens ts) := by
    rw [Parser.steps, length]
    omega
  obtain ⟨m, enough, run⟩ := Parser.statements_append spells _ fuel [] [.endOfFile p] (.inr rfl)
  have some : 0 < m := by omega
  have ended := Parser.statements_atEnd some (ss.reverse ++ []) [.endOfFile p] rfl
  rw [ended, List.append_nil, List.reverse_reverse, ← closed] at run
  rw [parseTokens, Parser.program, run]

end ImpCompiler
