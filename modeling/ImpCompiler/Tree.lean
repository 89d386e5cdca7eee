import ImpCompiler.Token

/-! # Program trees

Expressions and statements, as read from tokens.  A node keeps the tokens it was
read from, so that every message about it can say where it stands. -/

namespace ImpCompiler

/-- An expression. -/
inductive Expr where
  | binary (left : Expr) (op : Token) (right : Expr)
  | unary (op : Token) (operand : Expr)
  | literal (value : Token)
  /-- The value of a variable. -/
  | name (var : Token)
  | assign (target : Token) (value : Expr)
  | call (callee : Token) (arguments : List Expr)
  /-- An expression in parentheses. -/
  | group (inner : Expr)

/-- A statement. -/
inductive Stmt where
  /-- An expression that is evaluated for its effect. -/
  | expression (value : Expr)
  | print (value : Expr)
  /-- A variable declaration. -/
  | declare (var : Token) (initial : Option Expr)
  | block (body : List Stmt)
  | ifElse (condition : Expr) (yes : Stmt) (no : Option Stmt)
  | whileLoop (condition : Expr) (body : Stmt)
  | forLoop (initial : Option Stmt) (condition : Option Expr) (step : Option Expr) (body : Stmt)
  | function (name : Token) (params : List Token) (body : List Stmt)
  | ret (keyword : Token) (value : Option Expr)
  | brk (keyword : Token)

namespace Expr

/-- Where an expression starts: the position of its leftmost token, a parenthesis
    not counted. -/
def position : Expr → Position
  | .binary left _ _ => left.position
  | .group inner => inner.position
  | .unary op _ => op.position
  | .literal value => value.position
  | .name var => var.position
  | .assign target _ => target.position
  | .call callee _ => callee.position

end Expr

namespace Stmt

/-- The condition of a loop that names none. -/
def always : Expr :=
  .literal (.synthetic .boolLiteral "true")

/-- A counting loop, said with a block and a conditional loop: the step follows
    the body in a block of its own, and the initial statement precedes the loop in
    a block around both. -/
def desugarFor (initial : Option Stmt) (condition : Option Expr) (step : Option Expr)
    (body : Stmt) : Stmt :=
  let round :=
    match step with
    | some step => .block [body, .expression step]
    | none => body
  let loop := .whileLoop (condition.getD always) round
  match initial with
  | some initial => .block [initial, loop]
  | none => loop

/-- Whether a statement defines a function. -/
def isFunction : Stmt → Bool
  | .function .. => true
  | _ => false

end Stmt

end ImpCompiler
