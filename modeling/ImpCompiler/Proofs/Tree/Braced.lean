import ImpCompiler.Proofs.Semantics.Source
import ImpCompiler.Tree.Parser

/-! # Where declarations stand

A variable declaration is no branch and no body of a loop by itself: it stands in a block, in the
body of a function, or at the top of a program.  Trees need not be like that, but those that the
parser reads are (`parseTokens_braced`). -/

namespace ImpCompiler

namespace Stmt

/-- Whether a statement declares a variable in the scope around it. -/
def isDeclaration : Stmt → Bool
  | .declare _ _ => true
  | _ => false

mutual

/-- No declaration in the statement is a branch or the body of a loop. -/
def braced : Stmt → Bool
  | .block body => listBraced body
  | .ifElse _ yes no => !yes.isDeclaration && yes.braced && branchBraced no
  | .whileLoop _ body => !body.isDeclaration && body.braced
  | .forLoop none _ _ body => !body.isDeclaration && body.braced
  | .forLoop (some initial) _ _ body => initial.braced && !body.isDeclaration && body.braced
  | .function _ _ body => listBraced body
  | .expression _ => true
  | .print _ => true
  | .declare _ _ => true
  | .ret _ _ => true
  | .brk _ => true

def listBraced : List Stmt → Bool
  | [] => true
  | st :: ss => st.braced && listBraced ss

/-- The same for a branch that may be absent. -/
def branchBraced : Option Stmt → Bool
  | none => true
  | some st => !st.isDeclaration && st.braced

end

theorem listBraced_iff {ss : List Stmt} : listBraced ss = true ↔ ∀ st ∈ ss, st.braced = true := by
  induction ss with
  | nil => simp [listBraced]
  | cons st ss ih => simp [listBraced, ih]

mutual

/-- The bodies of functions are like the statements that they stand in. -/
theorem braced_functions : ∀ st : Stmt, st.braced = true → ∀ d ∈ st.functions, listBraced d.body = true
  | .block body, braced, d, member => listBraced_functions body braced d member
  | .ifElse _ yes no, braced, d, member => by
    simp only [Stmt.braced, Bool.and_eq_true] at braced
    cases List.mem_append.mp member with
    | inl first => exact braced_functions yes braced.1.2 d first
    | inr second => exact branchBraced_functions no braced.2 d second
  | .whileLoop _ body, braced, d, member => by
    simp only [Stmt.braced, Bool.and_eq_true] at braced
    exact braced_functions body braced.2 d member
  | .forLoop none _ _ body, braced, d, member => by
    simp only [Stmt.braced, Bool.and_eq_true] at braced
    exact braced_functions body braced.2 d member
  | .forLoop (some initial) _ _ body, braced, d, member => by
    simp only [Stmt.braced, Bool.and_eq_true] at braced
    cases List.mem_append.mp member with
    | inl first => exact braced_functions initial braced.1.1 d first
    | inr second => exact braced_functions body braced.2 d second
  | .function name params body, braced, d, member => by
    cases member with
    | head => exact braced
    | tail _ inner => exact listBraced_functions body braced d inner
  | .expression _, _, _, member => nomatch member
  | .print _, _, _, member => nomatch member
  | .declare _ _, _, _, member => nomatch member
  | .ret _ _, _, _, member => nomatch member
  | .brk _, _, _, member => nomatch member

theorem listBraced_functions : ∀ ss : List Stmt, listBraced ss = true →
    ∀ d ∈ listFunctions ss, listBraced d.body = true
  | [], _, _, member => nomatch member
  | st :: ss, braced, d, member => by
    simp only [listBraced, Bool.and_eq_true] at braced
    cases List.mem_append.mp member with
    | inl first => exact braced_functions st braced.1 d first
    | inr rest => exact listBraced_functions ss braced.2 d rest

theorem branchBraced_functions : ∀ st : Option Stmt, branchBraced st = true →
    ∀ d ∈ optionalFunctions st, listBraced d.body = true
  | none, _, _, member => nomatch member
  | some st, braced, d, member => by
    simp only [branchBraced, Bool.and_eq_true] at braced
    exact braced_functions st braced.2 d member

end

end Stmt

theorem listBraced_programFunctions {statements : List Stmt}
    (braced : Stmt.listBraced statements = true) :
    ∀ d ∈ programFunctions statements, Stmt.listBraced d.body = true := by
  intro d member
  cases member with
  | head => exact braced
  | tail _ inner => exact Stmt.listBraced_functions statements braced d inner

/-! ## Parsing -/

namespace Parser

variable {α β : Type}

/-- What the parser reads, if it reads anything, has the property. -/
structure Reads (p : Parser α) (property : α → Prop) : Prop where
  of_ok : ∀ {rest a rest'}, p rest = .ok a rest' → property a

namespace Reads

variable {p : Parser α} {property : α → Prop} {property' : β → Prop}

theorem mono {weaker : α → Prop} (reads : Reads p property) (holds : ∀ a, property a → weaker a) :
    Reads p weaker :=
  ⟨fun run => holds _ (reads.of_ok run)⟩

theorem pure {a : α} (holds : property a) : Reads (pure a) property where
  of_ok run := by
    cases run
    exact holds

theorem failHere (cause : Cause) : Reads (failHere cause) property :=
  ⟨fun run => nomatch run⟩

theorem failAt (t : Token) (cause : Cause) : Reads (failAt t cause) property :=
  ⟨fun run => nomatch run⟩

theorem bind {next : α → Parser β} (first : Reads p property)
    (second : ∀ a, property a → Reads (next a) property') : Reads (p >>= next) property' where
  of_ok run := by
    simp only [Bind.bind, EStateM.bind] at run
    split at run
    · rename_i a middle done
      exact (second a (first.of_ok done)).of_ok run
    · cases run

/-- What is read first does not matter. -/
theorem after {next : α → Parser β} (second : ∀ a, Reads (next a) property') :
    Reads (p >>= next) property' := by
  have first : Reads p fun _ => True := ⟨fun _ => trivial⟩
  exact first.bind fun a _ => second a

theorem map {f : α → β} (reads : Reads p property) (holds : ∀ a, property a → property' (f a)) :
    Reads (f <$> p) property' where
  of_ok run := by
    simp only [Functor.map, EStateM.map] at run
    split at run
    · rename_i a after done
      cases run
      exact holds a (reads.of_ok done)
    · cases run

end Reads

/-- A statement that can be a branch or the body of a loop. -/
def Branch (st : Stmt) : Prop :=
  st.isDeclaration = false ∧ st.braced = true

theorem declaredVariable_reads (n : Nat) :
    Reads (declaredVariable n) fun st => st.braced = true := by
  apply Reads.after
  intro var
  apply Reads.after
  intro equals
  cases equals with
  | some _ =>
    apply Reads.after
    intro initial
    apply Reads.after
    intro _
    exact Reads.pure rfl
  | none =>
    apply Reads.after
    intro _
    exact Reads.pure rfl

theorem expressionStatement_reads (n : Nat) : Reads (expressionStatement n) Branch := by
  apply Reads.after
  intro value
  apply Reads.after
  intro _
  exact Reads.pure ⟨rfl, rfl⟩

theorem printed_reads (n : Nat) : Reads (printed n) Branch := by
  apply Reads.after
  intro value
  apply Reads.after
  intro _
  exact Reads.pure ⟨rfl, rfl⟩

theorem returned_reads (n : Nat) (keyword : Token) : Reads (returned n keyword) Branch := by
  apply Reads.after
  intro ends
  split
  · apply Reads.after
    intro _
    exact Reads.pure ⟨rfl, rfl⟩
  · apply Reads.after
    intro value
    apply Reads.after
    intro _
    exact Reads.pure ⟨rfl, rfl⟩

theorem forInitial_reads (n : Nat) :
    Reads (forInitial n) fun initial => ∀ st, initial = some st → st.braced = true := by
  have given : ∀ {p : Parser Stmt}, Reads p (fun st => st.braced = true) →
      Reads (some <$> p) fun initial => ∀ st, initial = some st → st.braced = true := by
    intro p reads
    apply reads.map
    intro st braced st' same
    cases same
    exact braced
  apply Reads.after
  intro none?
  cases none? with
  | some _ => exact Reads.pure fun st same => nomatch same
  | none =>
    apply Reads.after
    intro var
    cases var with
    | some _ => exact given (declaredVariable_reads n)
    | none => exact given ((expressionStatement_reads n).mono fun _ branch => branch.2)

/-- A counting loop is a block or a loop, and declares its variable within the block. -/
theorem branch_desugarFor {initial : Option Stmt} (test step : Option Expr) {body : Stmt}
    (first : ∀ st, initial = some st → st.braced = true) (branch : Branch body) :
    Branch (Stmt.desugarFor initial test step body) := by
  obtain ⟨plain, braced⟩ := branch
  cases initial with
  | none =>
    cases step with
    | none => exact ⟨rfl, by simp [Stmt.desugarFor, Stmt.braced, plain, braced]⟩
    | some step =>
      exact ⟨rfl, by simp [Stmt.desugarFor, Stmt.braced, Stmt.listBraced, Stmt.isDeclaration, braced]⟩
  | some initial =>
    have head := first initial rfl
    cases step with
    | none => exact ⟨rfl, by simp [Stmt.desugarFor, Stmt.braced, Stmt.listBraced, head, plain, braced]⟩
    | some step =>
      exact ⟨rfl, by
        simp [Stmt.desugarFor, Stmt.braced, Stmt.listBraced, Stmt.isDeclaration, head, braced]⟩

/-- What the functions for statements read within `n` steps. -/
structure Shapes (n : Nat) : Prop where
  declaration : Reads (declaration n) fun st => st.braced = true
  statement : Reads (statement n) Branch
  keywordStatement : ∀ keyword, Reads (keywordStatement n keyword) Branch
  blockRest : ∀ ending read, (∀ st ∈ read, st.braced = true) →
    Reads (blockRest n ending read) fun body => Stmt.listBraced body = true

section steps

variable {n : Nat} (shapes : Shapes n)

include shapes

theorem Shapes.declaration_succ : Reads (Parser.declaration (n + 1)) fun st => st.braced = true := by
  rw [Parser.declaration]
  apply Reads.after
  intro func
  -- a definition of a function, of a variable, or a statement
  cases func with
  | some _ =>
    apply Reads.after
    intro head
    exact (shapes.blockRest _ [] (by simp)).bind fun body braced => Reads.pure braced
  | none =>
    apply Reads.after
    intro var
    cases var with
    | some _ => exact declaredVariable_reads n
    | none => exact shapes.statement.mono fun _ branch => branch.2

theorem Shapes.statement_succ : Reads (Parser.statement (n + 1)) Branch := by
  rw [Parser.statement]
  apply Reads.after
  intro brace
  cases brace with
  | some _ => exact (shapes.blockRest _ [] (by simp)).map fun body braced => ⟨rfl, braced⟩
  | none =>
    apply Reads.after
    intro keyword
    cases keyword with
    | some keyword => exact shapes.keywordStatement keyword
    | none => exact expressionStatement_reads n

theorem Shapes.blockRest_succ (ending : Cause) (read : List Stmt)
    (before : ∀ st ∈ read, st.braced = true) :
    Reads (Parser.blockRest (n + 1) ending read) fun body => Stmt.listBraced body = true := by
  rw [Parser.blockRest]
  apply Reads.after
  intro brace
  cases brace with
  | some _ => exact Reads.pure (Stmt.listBraced_iff.mpr fun st member => before st (by simpa using member))
  | none =>
    apply Reads.after
    intro rest
    split
    · exact Reads.failHere ending
    · apply shapes.declaration.bind
      intro next braced
      apply shapes.blockRest
      exact List.forall_mem_cons.mpr ⟨braced, before⟩

theorem Shapes.keywordStatement_succ (keyword : Token) :
    Reads (Parser.keywordStatement (n + 1) keyword) Branch := by
  rw [Parser.keywordStatement]
  split
  -- a branch is read as a statement, and no statement is a declaration
  · apply Reads.after
    intro test
    apply shapes.statement.bind
    intro yes branch
    apply Reads.after
    intro else?
    cases else? with
    | some _ =>
      apply shapes.statement.bind
      intro no branch'
      apply Reads.pure
      exact ⟨rfl, by simp [Stmt.braced, Stmt.branchBraced, branch.1, branch.2, branch'.1, branch'.2]⟩
    | none =>
      apply Reads.pure
      exact ⟨rfl, by simp [Stmt.braced, Stmt.branchBraced, branch.1, branch.2]⟩
  · apply Reads.after
    intro test
    apply shapes.statement.bind
    intro body branch
    apply Reads.pure
    exact ⟨rfl, by simp [Stmt.braced, branch.1, branch.2]⟩
  · apply Reads.after
    intro _
    apply (forInitial_reads n).bind
    intro initial first
    apply Reads.after
    intro test
    apply Reads.after
    intro step
    apply shapes.statement.bind
    intro body branch
    exact Reads.pure (branch_desugarFor test step first branch)
  · exact printed_reads n
  · exact returned_reads n keyword
  · apply Reads.after
    intro _
    exact Reads.pure ⟨rfl, rfl⟩
  · exact Reads.failAt keyword _

end steps

theorem shapes : ∀ n, Shapes n
  | 0 => ⟨Reads.failHere _, Reads.failHere _, fun _ => Reads.failHere _, fun _ _ _ => Reads.failHere _⟩
  | n + 1 =>
    have before := shapes n
    ⟨before.declaration_succ, before.statement_succ, before.keywordStatement_succ, before.blockRest_succ⟩

theorem statements_reads (n : Nat) (read : List Stmt) (before : ∀ st ∈ read, st.braced = true) :
    Reads (statements n read) fun program => Stmt.listBraced program = true := by
  induction n generalizing read with
  | zero => exact Reads.failHere _
  | succ n ih =>
    have finished : Stmt.listBraced read.reverse = true :=
      Stmt.listBraced_iff.mpr fun st member => before st (by simpa using member)
    constructor
    intro rest program rest' run
    cases rest with
    | nil =>
      cases run
      exact finished
    | cons t behind =>
      simp only [statements] at run
      split at run
      · cases run
        exact finished
      · split at run
        -- a stray token is left out
        · exact (ih read before).of_ok run
        · cases next : declaration n (t :: behind) with
          | ok st middle =>
            rw [next] at run
            have braced := (shapes n).declaration.of_ok next
            exact (ih (st :: read) (List.forall_mem_cons.mpr ⟨braced, before⟩)).of_ok run
          | error e middle =>
            rw [next] at run
            dsimp only at run
            split at run
            · -- the error is forgotten, what was read before it stays
              cases run
              exact finished
            · cases run

end Parser

/-- In every program that the parser reads, declarations stand where they should. -/
theorem parseTokens_braced {tokens : List Token} {statements : List Stmt}
    (parsed : parseTokens tokens = .ok statements) : Stmt.listBraced statements = true := by
  rw [parseTokens] at parsed
  split at parsed
  · rename_i program rest run
    cases parsed
    exact (Parser.statements_reads _ [] (by simp)).of_ok run
  · cases parsed

end ImpCompiler
