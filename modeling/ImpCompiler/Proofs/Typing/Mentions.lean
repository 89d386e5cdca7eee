import ImpCompiler.Proofs.Lowering.Soundness
import ImpCompiler.Proofs.Ssa.WellFormed
import ImpCompiler.Proofs.Tree.Names
import ImpCompiler.Proofs.Typing.Discipline

/-! # What the mentions of a program make known

Read from left to right, the mentions of a program say how its functions become known (`Mention.know`):
a check of the program that ends well knows just these (`Typing.adds_checkStmts`). -/

namespace ImpCompiler

open Ssa Typing

/-! ## What becomes known -/

/-- The signature of the function that a mention defines. -/
def Mention.definition? : Mention → Option Signature
  | .function name params => some ⟨name, List.replicate params .i32, .i32, false⟩
  | _ => none

/-- The routine that a mention needs. -/
def Mention.routine? : Mention → Option PrintRoutine
  | .printed e => printRoutine? e.valueType
  | _ => none

/-- The functions that are known behind a mention: a function is added where it is defined, and a
    routine where it is first needed. -/
def Mention.know (known : List Signature) (mention : Mention) : List Signature :=
  match mention with
  | .literal _ => known
  | .function name params => known ++ [⟨name, List.replicate params .i32, .i32, false⟩]
  | .printed e =>
    match printRoutine? e.valueType with
    | none => known
    | some routine =>
      if routineSignature routine ∈ known then known else known ++ [routineSignature routine]

/-! ## What the functions come to -/

mutual

/-- Expressions define nothing and print nothing. -/
theorem Expr.foldl_know : ∀ (e : Expr) (known : List Signature), e.mentions.foldl Mention.know known = known
  | .binary left _ right, known => by
    rw [mentions, List.foldl_append, Expr.foldl_know left, Expr.foldl_know right]
  | .unary _ operand, known => by rw [mentions, Expr.foldl_know operand]
  | .literal value, known => by
    rw [mentions]
    split <;> rfl
  | .name _, known => by rw [mentions]; rfl
  | .assign _ value, known => by rw [mentions, Expr.foldl_know value]
  | .call _ arguments, known => by rw [mentions, Expr.foldl_know_list arguments]
  | .group inner, known => by rw [mentions, Expr.foldl_know inner]

theorem Expr.foldl_know_list : ∀ (es : List Expr) (known : List Signature),
    (Expr.listMentions es).foldl Mention.know known = known
  | [], known => by rw [listMentions]; rfl
  | e :: es, known => by
    rw [listMentions, List.foldl_append, Expr.foldl_know e, Expr.foldl_know_list es]

end

theorem Expr.foldl_know_optional (e : Option Expr) (known : List Signature) :
    (Expr.optionalMentions e).foldl Mention.know known = known := by
  cases e with
  | none => rfl
  | some e => exact e.foldl_know known

/-- The functions with a body are those of before and those that are defined, in order. -/
theorem filter_foldl_know (mentions : List Mention) (known : List Signature) :
    (mentions.foldl Mention.know known).filter (!·.isDeclaration) =
      known.filter (!·.isDeclaration) ++ mentions.filterMap Mention.definition? := by
  induction mentions generalizing known with
  | nil => simp
  | cons mention mentions ih =>
    rw [List.foldl_cons, ih]
    cases mention with
    | literal text => rfl
    | function name params =>
      simp [Mention.know, Mention.definition?]
    | printed e =>
      have same : (Mention.know known (.printed e)).filter (!·.isDeclaration) =
          known.filter (!·.isDeclaration) := by
        rw [Mention.know]
        split
        · rfl
        · split
          · rfl
          · simp [routineSignature]
      rw [same]
      rfl

/-- The functions without a body are those of before and the routines that are needed. -/
theorem mem_foldl_know {mentions : List Mention} {known : List Signature} {f : Signature}
    (declared : f.isDeclaration = true) :
    f ∈ mentions.foldl Mention.know known ↔
      f ∈ known ∨ ∃ mention ∈ mentions, ∃ routine, mention.routine? = some routine ∧
        f = routineSignature routine := by
  induction mentions generalizing known with
  | nil => simp
  | cons mention mentions ih =>
    rw [List.foldl_cons, ih]
    have step : f ∈ Mention.know known mention ↔
        f ∈ known ∨ ∃ routine, mention.routine? = some routine ∧ f = routineSignature routine := by
      cases mention with
      | literal text => simp [Mention.know, Mention.routine?]
      | function name params =>
        have other : f ≠ ⟨name, List.replicate params .i32, .i32, false⟩ := by
          rintro rfl
          cases declared
        simp [Mention.know, Mention.routine?, other]
      | printed e =>
        rw [Mention.know, Mention.routine?]
        cases printRoutine? e.valueType with
        | none => simp
        | some routine =>
          dsimp only
          split
          · rename_i old
            constructor
            · exact .inl
            · rintro (inside | ⟨other, same, rfl⟩)
              · exact inside
              · exact Option.some.inj same ▸ old
          · simp
    simp only [step, List.mem_cons, or_and_right, exists_or, exists_eq_left, or_assoc]

/-- Functions that are known stay where they are. -/
theorem isPrefix_foldl_know (mentions : List Mention) (known : List Signature) :
    known <+: mentions.foldl Mention.know known := by
  induction mentions generalizing known with
  | nil => exact List.prefix_rfl
  | cons mention mentions ih =>
    refine List.IsPrefix.trans ?_ (ih (mention.know known))
    rw [Mention.know.eq_def]
    split
    · exact List.prefix_rfl
    · exact List.prefix_append _ _
    · split
      · exact List.prefix_rfl
      · split
        · exact List.prefix_rfl
        · exact List.prefix_append _ _

/-! ## Functions in the type discipline -/

namespace Typing

/-- All functions return numbers, or nothing. -/
def Ordinary (known : List Signature) : Prop :=
  ∀ f ∈ known, f.returnType = .i32 ∨ f.returnType = .void

theorem Ordinary.know {known : List Signature} (ordinary : Ordinary known) (mention : Mention) :
    Ordinary (mention.know known) := by
  have append : ∀ f : Signature, f.returnType = .i32 ∨ f.returnType = .void →
      Ordinary (known ++ [f]) := by
    intro f fits g member
    rcases List.mem_append.mp member with old | new
    · exact ordinary g old
    · exact List.mem_singleton.mp new ▸ fits
  cases mention with
  | literal text => exact ordinary
  | function name params => exact append _ (.inl rfl)
  | printed e =>
    rw [Mention.know]
    split
    · exact ordinary
    · split
      · exact ordinary
      · exact append _ (.inr rfl)

theorem Ordinary.foldl {known : List Signature} (ordinary : Ordinary known)
    (mentions : List Mention) : Ordinary (mentions.foldl Mention.know known) := by
  induction mentions generalizing known with
  | nil => exact ordinary
  | cons mention mentions ih => exact ih (ordinary.know mention)

variable {Γ : Context}

theorem eq_of_literalType {t : Token} {ty : Ty} (checked : literalType t = .ok ty) :
    ty = (Expr.literal t).valueType := by
  unfold literalType at checked
  rw [Expr.valueType]
  cases kind : t.kind with
  | intLiteral =>
    simp only [kind] at checked
    split at checked
    · exact (Except.ok.inj checked).symm
    · cases checked
  | floatLiteral =>
    simp only [kind] at checked
    split at checked
    · exact (Except.ok.inj checked).symm
    · cases checked
  | boolLiteral =>
    simp only [kind] at checked
    split at checked
    · exact (Except.ok.inj checked).symm
    · cases checked
  | stringLiteral =>
    simp only [kind] at checked
    exact (Except.ok.inj checked).symm
  | _ =>
    simp only [kind] at checked
    cases checked

theorem eq_of_binaryType {op : Token} {left right ty : Ty} (checked : binaryType op left right = .ok ty) :
    ty = if op.kind = .compare then .i1 else left := by
  unfold binaryType at checked
  dsimp only at checked
  split at checked
  · cases checked
  · split at checked
    · rename_i kind
      rw [if_neg (by rw [kind]; decide)]
      split at checked
      · exact (Except.ok.inj checked).symm
      · cases checked
    · rename_i kind
      rw [if_pos kind]
      split at checked
      · exact (Except.ok.inj checked).symm
      · cases checked
    · cases checked

theorem eq_of_unaryType {op : Token} {operand ty : Ty} (checked : unaryType op operand = .ok ty) :
    ty = operand := by
  unfold unaryType at checked
  split at checked
  · exact (Except.ok.inj checked).symm
  · cases checked

theorem returns_of_callType {callee : Token} {count : Nat} {arguments : List Ty → Checked Unit} {ty : Ty}
    (checked : callType Γ callee count arguments = .ok ty) : ∃ f ∈ Γ.functions, f.returnType = ty := by
  unfold callType at checked
  split at checked
  · cases checked
  · rename_i f found
    split at checked
    · cases checked
    · obtain ⟨_, _, same⟩ := except_bind_eq_ok.mp checked
      exact ⟨f, List.mem_of_find?_eq_some found, Except.ok.inj same⟩

/-- The type of an expression can be read off it where all functions are ordinary. -/
theorem eq_valueType_of_exprType (ordinary : Ordinary Γ.functions) :
    ∀ {e : Expr} {ty : Ty}, exprType Γ e = .ok ty → ty = e.valueType
  | .binary left op right, ty, checked => by
    rw [exprType, except_bind_eq_ok] at checked
    obtain ⟨l, first, checked⟩ := checked
    obtain ⟨r, _, joined⟩ := except_bind_eq_ok.mp checked
    rw [eq_of_binaryType joined, Expr.valueType, eq_valueType_of_exprType ordinary first]
  | .unary op operand, ty, checked => by
    rw [exprType, except_bind_eq_ok] at checked
    obtain ⟨l, first, checked⟩ := checked
    rw [eq_of_unaryType checked, Expr.valueType, eq_valueType_of_exprType ordinary first]
  | .literal value, ty, checked => by
    rw [exprType] at checked
    exact eq_of_literalType checked
  | .name var, ty, checked => by
    rw [exprType, except_bind_eq_ok] at checked
    obtain ⟨_, _, same⟩ := checked
    exact (Except.ok.inj same).symm
  | .assign target value, ty, checked => by
    rw [exprType, except_bind_eq_ok] at checked
    obtain ⟨found, first, checked⟩ := checked
    obtain ⟨slot, _, checked⟩ := except_bind_eq_ok.mp checked
    split at checked
    · cases checked
    · rename_i same
      rw [← Except.ok.inj checked, Expr.valueType, ← eq_valueType_of_exprType ordinary first]
      exact (Decidable.not_not.mp same).symm
  | .call callee arguments, ty, checked => by
    rw [exprType, except_bind_eq_ok] at checked
    obtain ⟨result, called, checked⟩ := checked
    obtain ⟨f, member, returns⟩ := returns_of_callType called
    split at checked
    · cases checked
    · rename_i value
      -- a call that is a value is not that of a routine, and all other functions return numbers
      rw [← Except.ok.inj checked, Expr.valueType, ← returns]
      exact (ordinary f member).resolve_right (returns ▸ value)
  | .group inner, ty, checked => by
    rw [exprType] at checked
    rw [Expr.valueType]
    exact eq_valueType_of_exprType ordinary checked

/-! ### Checks -/

/-- A check makes those functions known that are mentioned. -/
def Adds (mentions : List Mention) (check : Context → Checked Context) : Prop :=
  ∀ Γ Γ', Ordinary Γ.functions → check Γ = .ok Γ' →
    Γ'.functions = mentions.foldl Mention.know Γ.functions

namespace Adds

variable {mentions mentions' : List Mention} {check check' : Context → Checked Context}

theorem nothing : Adds [] Except.ok := by
  intro Γ Γ' _ checked
  cases checked
  rfl

theorem seq (first : Adds mentions check) (second : Adds mentions' check') :
    Adds (mentions ++ mentions') fun Γ => check Γ >>= check' := by
  intro Γ Γ' ordinary checked
  obtain ⟨Γ₁, checked, checked'⟩ := except_bind_eq_ok.mp checked
  have same := first Γ Γ₁ ordinary checked
  rw [second Γ₁ Γ' (same ▸ ordinary.foldl mentions) checked', same, List.foldl_append]

/-- An expression is checked first, which makes nothing known. -/
theorem behind {α : Type} (rest : Adds mentions check) (e : Expr) (test : Context → Checked α) :
    Adds (e.mentions ++ mentions) fun Γ => test Γ >>= fun _ => check Γ := by
  intro Γ Γ' ordinary checked
  obtain ⟨_, _, checked⟩ := except_bind_eq_ok.mp checked
  rw [List.foldl_append, e.foldl_know]
  exact rest Γ Γ' ordinary checked

theorem inScope (inner : Adds mentions check) : Adds mentions (checkScoped check) := by
  intro Γ Γ' ordinary checked
  obtain ⟨Γ₁, checked, same⟩ := except_bind_eq_ok.mp checked
  rw [← Except.ok.inj same]
  exact inner (Γ.enter .block) Γ₁ ordinary checked

theorem print (e : Expr) : Adds (e.mentions ++ [.printed e]) fun Γ => checkPrint Γ e := by
  intro Γ Γ' ordinary checked
  obtain ⟨ty, typed, checked⟩ := except_bind_eq_ok.mp checked
  rw [eq_valueType_of_exprType ordinary typed] at checked
  rw [List.foldl_append, e.foldl_know, List.foldl_cons, List.foldl_nil, Mention.know]
  cases needs : printRoutine? e.valueType with
  | none =>
    rw [needs] at checked
    cases checked
  | some routine =>
    rw [needs] at checked
    dsimp only at checked ⊢
    rw [useRoutine] at checked
    split at checked
    · rename_i absent
      cases checked
      -- a routine that is known has been found by its name
      have new : routineSignature routine ∉ Γ.functions := by
        intro member
        have other := List.find?_eq_none.mp absent _ member
        simp [routineSignature] at other
      rw [if_neg new]
      rfl
    · rename_i f found
      split at checked
      · rename_i same
        cases checked
        rw [if_pos (same ▸ List.mem_of_find?_eq_some found)]
      · cases checked

/-- One round of a loop; the step follows the body in a scope around both. -/
theorem round (body : Adds mentions check) (step : Option Expr) :
    Adds (mentions ++ Expr.optionalMentions step)
      (match step with
      | none => check
      | some step => checkScoped fun Γ => do
        let Γ ← check Γ
        checkEffect Γ step
        return Γ) := by
  cases step with
  | none => exact (List.append_nil mentions).symm ▸ body
  | some step =>
    have last := nothing.behind step (checkEffect · step)
    rw [List.append_nil] at last
    exact (body.seq last).inScope

theorem functions_foldl_declare (params : List Token) (Γ : Context) :
    (params.foldl (fun Γ p => Γ.declare p.text .i32) Γ).functions = Γ.functions := by
  induction params generalizing Γ with
  | nil => rfl
  | cons p params ih => exact ih _

theorem function (name : Token) (params : List Token) (body : Adds mentions check) :
    Adds (.function name.text params.length :: mentions) (checkFunction name params check) := by
  intro Γ Γ' ordinary checked
  rw [checkFunction] at checked
  split at checked
  · cases checked
  · obtain ⟨Γ₁, inner, same⟩ := except_bind_eq_ok.mp checked
    rw [← Except.ok.inj same, List.foldl_cons]
    have known := ordinary.know (.function name.text params.length)
    rw [Mention.know, ← List.map_const'] at known ⊢
    have functions := functions_foldl_declare params
      ((Γ.addFunction ⟨name.text, params.map fun _ => .i32, .i32, false⟩).enter .function)
    have added := body _ Γ₁ (functions ▸ known) inner
    rw [functions] at added
    exact added

end Adds

mutual

theorem adds_checkStmt : ∀ st : Stmt, Adds st.mentions (checkStmt st)
  | .expression e => by
    intro Γ Γ' ordinary checked
    rw [checkStmt] at checked
    rw [Stmt.mentions, ← List.append_nil e.mentions]
    exact Adds.nothing.behind e (checkEffect · e) Γ Γ' ordinary checked
  | .print e => by
    intro Γ Γ' ordinary checked
    rw [checkStmt] at checked
    rw [Stmt.mentions]
    exact Adds.print e Γ Γ' ordinary checked
  | .declare var none => by
    intro Γ Γ' _ checked
    rw [checkStmt] at checked
    cases checked
    rw [Stmt.mentions]
    rfl
  | .declare var (some e) => by
    intro Γ Γ' _ checked
    rw [checkStmt, except_bind_eq_ok] at checked
    obtain ⟨ty, _, same⟩ := checked
    rw [← Except.ok.inj same, Stmt.mentions, Expr.foldl_know_optional]
    rfl
  | .block body => by
    intro Γ Γ' ordinary checked
    rw [checkStmt] at checked
    rw [Stmt.mentions]
    exact (adds_checkStmts body).inScope Γ Γ' ordinary checked
  | .ifElse test yes no => by
    intro Γ Γ' ordinary checked
    rw [checkStmt] at checked
    rw [Stmt.mentions]
    exact ((adds_checkStmt yes).seq (adds_checkOptional no)).behind test (checkCondition · test)
      Γ Γ' ordinary checked
  | .whileLoop test body => by
    intro Γ Γ' ordinary checked
    rw [checkStmt] at checked
    rw [Stmt.mentions]
    exact (adds_checkStmt body).behind test (checkCondition · test) Γ Γ' ordinary checked
  | .forLoop initial test step body => by
    intro Γ Γ' ordinary checked
    rw [checkStmt] at checked
    rw [Stmt.mentions, ← Expr.mentions_getD_always]
    have loop := ((adds_checkStmt body).round step).behind (test.getD Stmt.always)
      (checkCondition · (test.getD Stmt.always))
    cases initial with
    | none => exact loop Γ Γ' ordinary checked
    | some initial => exact ((adds_checkOptional (some initial)).seq loop).inScope Γ Γ' ordinary checked
  | .function name params body => by
    intro Γ Γ' ordinary checked
    rw [checkStmt] at checked
    rw [Stmt.mentions]
    exact Adds.function name params (adds_checkStmts body) Γ Γ' ordinary checked
  | .ret _ none => by
    intro Γ Γ' _ checked
    rw [checkStmt] at checked
    cases checked
    rw [Stmt.mentions]
    rfl
  | .ret _ (some e) => by
    intro Γ Γ' ordinary checked
    rw [checkStmt] at checked
    rw [Stmt.mentions, Expr.optionalMentions, ← List.append_nil e.mentions]
    exact Adds.nothing.behind e (exprType · e) Γ Γ' ordinary checked
  | .brk _ => by
    intro Γ Γ' _ checked
    rw [checkStmt] at checked
    cases checked
    rw [Stmt.mentions]
    rfl

theorem adds_checkStmts : ∀ ss : List Stmt, Adds (Stmt.listMentions ss) (checkStmts ss)
  | [] => by
    intro Γ Γ' ordinary checked
    rw [checkStmts] at checked
    rw [Stmt.listMentions]
    exact Adds.nothing Γ Γ' ordinary checked
  | s :: ss => by
    intro Γ Γ' ordinary checked
    rw [checkStmts] at checked
    rw [Stmt.listMentions]
    exact (adds_checkStmt s).seq (adds_checkStmts ss) Γ Γ' ordinary checked

theorem adds_checkOptional : ∀ st : Option Stmt, Adds (Stmt.optionalMentions st) (checkOptional st)
  | none => by
    intro Γ Γ' ordinary checked
    rw [checkOptional] at checked
    rw [Stmt.optionalMentions]
    exact Adds.nothing Γ Γ' ordinary checked
  | some st => by
    intro Γ Γ' ordinary checked
    rw [checkOptional] at checked
    rw [Stmt.optionalMentions]
    exact adds_checkStmt st Γ Γ' ordinary checked

end

end Typing

end ImpCompiler
