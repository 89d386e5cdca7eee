import ImpCompiler.Tree

/-! # Visits

The nodes of a tree in the order in which a walk from the root reaches them, each
by the name of its kind.  A node comes before its parts, and its parts come in the
order in which they are held; tokens are not visited. -/

namespace ImpCompiler

mutual

/-- The nodes of an expression. -/
def Expr.visits : Expr → List String
  | .binary left _ right => "binary" :: (left.visits ++ right.visits)
  | .unary _ operand => "unary" :: operand.visits
  | .literal _ => ["literal"]
  | .name _ => ["variable"]
  | .assign _ value => "assign" :: value.visits
  | .call _ arguments => "call" :: Expr.listVisits arguments
  | .group inner => "grouping" :: inner.visits

/-- The nodes of several expressions. -/
def Expr.listVisits : List Expr → List String
  | [] => []
  | e :: es => e.visits ++ Expr.listVisits es

end

/-- The nodes of an expression that may be absent. -/
def Expr.optionalVisits : Option Expr → List String
  | some e => e.visits
  | none => []

mutual

/-- The nodes of a statement.  Of a function, only the body is visited. -/
def Stmt.visits : Stmt → List String
  | .expression value => "expression" :: value.visits
  | .print value => "print" :: value.visits
  | .declare _ initial => "var" :: Expr.optionalVisits initial
  | .block body => "block" :: Stmt.listVisits body
  | .ifElse condition yes no =>
    "if" :: (condition.visits ++ yes.visits ++ Stmt.optionalVisits no)
  | .whileLoop condition body => "while" :: (condition.visits ++ body.visits)
  | .forLoop initial condition step body =>
    "for" :: (Stmt.optionalVisits initial ++ Expr.optionalVisits condition ++
      Expr.optionalVisits step ++ body.visits)
  | .function _ _ body => "function" :: Stmt.listVisits body
  | .ret _ value => "return" :: Expr.optionalVisits value
  | .brk _ => ["break"]

/-- The nodes of several statements. -/
def Stmt.listVisits : List Stmt → List String
  | [] => []
  | s :: ss => s.visits ++ Stmt.listVisits ss

/-- The nodes of a statement that may be absent. -/
def Stmt.optionalVisits : Option Stmt → List String
  | some s => s.visits
  | none => []

end

end ImpCompiler
