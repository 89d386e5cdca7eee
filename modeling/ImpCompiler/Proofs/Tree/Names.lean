import ImpCompiler.Proofs.Tree.Relabelling

/-! # The names, texts and positions in a program

Which variables a program uses (`vars`) and which it declares in the scope around it (`openNames`), what
it mentions that shows in its module (`mentions`), and what it is with its variables renamed (`rename`)
or its tokens put at other positions (`Token.move`). -/

namespace ImpCompiler

/-! ## Variables -/

/-- The token with a new text. -/
def Token.rename (ρ : String → String) (t : Token) : Token :=
  { t with text := ρ t.text }

theorem Token.rename_id (t : Token) : t.rename id = t := rfl

namespace Expr

mutual

/-- The expression with its variables renamed. -/
def rename (ρ : String → String) : Expr → Expr
  | .binary left op right => .binary (left.rename ρ) op (right.rename ρ)
  | .unary op operand => .unary op (operand.rename ρ)
  | .literal value => .literal value
  | .name var => .name (var.rename ρ)
  | .assign target value => .assign (target.rename ρ) (value.rename ρ)
  | .call callee arguments => .call callee (listRename ρ arguments)
  | .group inner => .group (inner.rename ρ)

def listRename (ρ : String → String) : List Expr → List Expr
  | [] => []
  | e :: es => e.rename ρ :: listRename ρ es

end

mutual

/-- The variables that an expression reads or assigns to. -/
def vars : Expr → List String
  | .binary left _ right => left.vars ++ right.vars
  | .unary _ operand => operand.vars
  | .literal _ => []
  | .name var => [var.text]
  | .assign target value => target.text :: value.vars
  | .call _ arguments => listVars arguments
  | .group inner => inner.vars

def listVars : List Expr → List String
  | [] => []
  | e :: es => e.vars ++ listVars es

end

theorem length_listRename (ρ : String → String) (es : List Expr) :
    (listRename ρ es).length = es.length := by
  induction es with
  | nil => rfl
  | cons e es ih => rw [listRename, List.length_cons, List.length_cons, ih]

theorem position_rename (ρ : String → String) : ∀ e : Expr, (e.rename ρ).position = e.position
  | .binary left _ _ => position_rename ρ left
  | .group inner => position_rename ρ inner
  | .unary _ _ | .literal _ | .name _ | .assign _ _ | .call _ _ => rfl

mutual

theorem rename_id : ∀ e : Expr, e.rename id = e
  | .binary left op right => by rw [rename, rename_id left, rename_id right]
  | .unary op operand => by rw [rename, rename_id operand]
  | .literal value => by rw [rename]
  | .name var => by rw [rename, Token.rename_id]
  | .assign target value => by rw [rename, Token.rename_id, rename_id value]
  | .call callee arguments => by rw [rename, listRename_id arguments]
  | .group inner => by rw [rename, rename_id inner]

theorem listRename_id : ∀ es : List Expr, listRename id es = es
  | [] => by rw [listRename]
  | e :: es => by rw [listRename, rename_id e, listRename_id es]

end

end Expr

namespace Stmt

mutual

/-- The statement with its variables and parameters renamed; functions keep their names. -/
def rename (ρ : String → String) : Stmt → Stmt
  | .expression value => .expression (value.rename ρ)
  | .print value => .print (value.rename ρ)
  | .declare var initial => .declare (var.rename ρ) (initial.map (Expr.rename ρ))
  | .block body => .block (listRename ρ body)
  | .ifElse test yes no => .ifElse (test.rename ρ) (yes.rename ρ) (optionRename ρ no)
  | .whileLoop test body => .whileLoop (test.rename ρ) (body.rename ρ)
  | .forLoop initial test step body =>
    .forLoop (optionRename ρ initial) (test.map (Expr.rename ρ)) (step.map (Expr.rename ρ))
      (body.rename ρ)
  | .function name params body => .function name (params.map (Token.rename ρ)) (listRename ρ body)
  | .ret keyword value => .ret keyword (value.map (Expr.rename ρ))
  | .brk keyword => .brk keyword

def listRename (ρ : String → String) : List Stmt → List Stmt
  | [] => []
  | st :: ss => st.rename ρ :: listRename ρ ss

def optionRename (ρ : String → String) : Option Stmt → Option Stmt
  | none => none
  | some st => some (st.rename ρ)

end

theorem listRename_eq_map (ρ : String → String) (ss : List Stmt) : listRename ρ ss = ss.map (rename ρ) := by
  induction ss with
  | nil => rfl
  | cons st ss ih => rw [listRename, List.map_cons, ih]

mutual

/-- The variables that a statement declares, reads or assigns to, and the parameters of its functions. -/
def vars : Stmt → List String
  | .expression value => value.vars
  | .print value => value.vars
  | .declare var initial => var.text :: initial.elim [] Expr.vars
  | .block body => listVars body
  | .ifElse test yes no => test.vars ++ (yes.vars ++ optionVars no)
  | .whileLoop test body => test.vars ++ body.vars
  | .forLoop initial test step body =>
    optionVars initial ++
      (test.elim [] Expr.vars ++ (step.elim [] Expr.vars ++ body.vars))
  | .function _ params body => params.map Token.text ++ listVars body
  | .ret _ value => value.elim [] Expr.vars
  | .brk _ => []

def listVars : List Stmt → List String
  | [] => []
  | st :: ss => st.vars ++ listVars ss

def optionVars : Option Stmt → List String
  | none => []
  | some st => st.vars

end

mutual

theorem rename_id : ∀ st : Stmt, st.rename id = st
  | .expression value => by rw [rename, Expr.rename_id]
  | .print value => by rw [rename, Expr.rename_id]
  | .declare var initial => by rw [rename, Token.rename_id, funext Expr.rename_id, Option.map_id']
  | .block body => by rw [rename, listRename_id body]
  | .ifElse test yes no => by rw [rename, Expr.rename_id, rename_id yes, optionRename_id no]
  | .whileLoop test body => by rw [rename, Expr.rename_id, rename_id body]
  | .forLoop initial test step body => by
    rw [rename, optionRename_id initial, funext Expr.rename_id, Option.map_id', Option.map_id',
      rename_id body]
  | .function name params body => by
    rw [rename, funext Token.rename_id, List.map_id', listRename_id body]
  | .ret keyword value => by rw [rename, funext Expr.rename_id, Option.map_id']
  | .brk keyword => by rw [rename]

theorem listRename_id : ∀ ss : List Stmt, listRename id ss = ss
  | [] => by rw [listRename]
  | st :: ss => by rw [listRename, rename_id st, listRename_id ss]

theorem optionRename_id : ∀ st : Option Stmt, optionRename id st = st
  | none => by rw [optionRename]
  | some st => by rw [optionRename, rename_id st]

end

end Stmt

/-- The names of the variables that a statement declares in the scope around it.  Those within blocks
    and functions are not among them, nor are those of a counting loop that opens a scope of its own. -/
def Stmt.openNames : Stmt → List String
  | .declare var _ => [var.text]
  | .ifElse _ yes none => yes.openNames
  | .ifElse _ yes (some no) => yes.openNames ++ no.openNames
  | .whileLoop _ body => body.openNames
  | .forLoop none _ none body => body.openNames
  | .forLoop _ _ _ _ | .block _ | .function _ _ _ => []
  | .expression _ | .print _ | .ret _ _ | .brk _ => []

/-! ## Mentions

`Stmt.listMentions` goes through a program in the order in which it is lowered and lists its string
literals, its function definitions and the expressions that it prints, wherever they stand. -/

/-- What a program mentions that shows in its module. -/
inductive Mention where
  /-- A string literal. -/
  | literal (text : String)
  /-- The definition of a function with so many parameters. -/
  | function (name : String) (params : Nat)
  /-- An expression that is printed. -/
  | printed (value : Expr)

mutual

/-- The string literals of an expression. -/
def Expr.mentions : Expr → List Mention
  | .binary left _ right => left.mentions ++ right.mentions
  | .unary _ operand => operand.mentions
  | .literal value => if value.kind = .stringLiteral then [.literal value.text] else []
  | .name _ => []
  | .assign _ value => value.mentions
  | .call _ arguments => Expr.listMentions arguments
  | .group inner => inner.mentions

def Expr.listMentions : List Expr → List Mention
  | [] => []
  | e :: es => e.mentions ++ Expr.listMentions es

end

def Expr.optionalMentions : Option Expr → List Mention
  | none => []
  | some e => e.mentions

mutual

/-- What a statement mentions, in the order in which it is lowered: the step of a loop comes behind
    the body. -/
def Stmt.mentions : Stmt → List Mention
  | .expression e => e.mentions
  | .print e => e.mentions ++ [.printed e]
  | .declare _ initial => Expr.optionalMentions initial
  | .block body => Stmt.listMentions body
  | .ifElse test yes no => test.mentions ++ (yes.mentions ++ Stmt.optionalMentions no)
  | .whileLoop test body => test.mentions ++ body.mentions
  | .forLoop initial test step body =>
    Stmt.optionalMentions initial ++
      (Expr.optionalMentions test ++ (body.mentions ++ Expr.optionalMentions step))
  | .function name params body => .function name.text params.length :: Stmt.listMentions body
  | .ret _ value => Expr.optionalMentions value
  | .brk _ => []

def Stmt.listMentions : List Stmt → List Mention
  | [] => []
  | s :: ss => s.mentions ++ Stmt.listMentions ss

def Stmt.optionalMentions : Option Stmt → List Mention
  | none => []
  | some s => s.mentions

end

theorem Expr.mentions_getD_always (test : Option Expr) :
    (test.getD Stmt.always).mentions = Expr.optionalMentions test := by
  cases test with
  | none => rfl
  | some e => rfl

/-- The text of a mention that is a string literal. -/
def Mention.text? : Mention → Option String
  | .literal text => some text
  | _ => none

/-- The string literals among mentions. -/
abbrev Mention.texts (mentions : List Mention) : List String :=
  mentions.filterMap Mention.text?

theorem Mention.texts_append (mentions mentions' : List Mention) :
    texts (mentions ++ mentions') = texts mentions ++ texts mentions' :=
  List.filterMap_append

/-! ## Positions -/

/-- The token at another position. -/
def Token.move (π : Position → Position) (t : Token) : Token :=
  { t with position := π t.position }

@[simp] theorem Token.kind_move (π : Position → Position) (t : Token) : (t.move π).kind = t.kind := rfl

@[simp] theorem Token.text_move (π : Position → Position) (t : Token) : (t.move π).text = t.text := rfl

@[simp] theorem Token.position_move (π : Position → Position) (t : Token) :
    (t.move π).position = π t.position := rfl

theorem Expr.position_relabel (π : Position → Position) :
    ∀ e : Expr, (e.relabel (Token.move π)).position = π e.position
  | .binary left _ _ => position_relabel π left
  | .group inner => position_relabel π inner
  | .unary _ _ | .literal _ | .name _ | .assign _ _ | .call _ _ => rfl

end ImpCompiler
