import ImpCompiler.Tree

/-! # Listings

The text that shows the shape of a tree: the name of each node and, between
parentheses, its parts. -/

namespace ImpCompiler

/-- A list between square brackets. -/
def bracketed (items : List String) : String :=
  "[" ++ ", ".intercalate items ++ "]"

mutual

/-- The listing of an expression. -/
def Expr.listing : Expr → String
  | .binary left op right =>
    "BinaryExpr(" ++ left.listing ++ ", " ++ op.text ++ ", " ++ right.listing ++ ")"
  | .unary op operand => "UnaryExpr(" ++ op.text ++ ", " ++ operand.listing ++ ")"
  | .literal value => "LiteralExpr(" ++ value.text ++ ")"
  | .name var => "VariableExpr(" ++ var.text ++ ")"
  | .assign target value => "AssignExpr(" ++ target.text ++ ", " ++ value.listing ++ ")"
  | .call callee arguments =>
    "CallExpr(" ++ callee.text ++ ", " ++ bracketed (Expr.listings arguments) ++ ")"
  | .group inner => "GroupingExpr(" ++ inner.listing ++ ")"

/-- The listings of several expressions. -/
def Expr.listings : List Expr → List String
  | [] => []
  | e :: es => e.listing :: Expr.listings es

end

/-- The listing of an expression that may be absent. -/
def Expr.optionalListing : Option Expr → String
  | some e => e.listing
  | none => "null"

mutual

/-- The listing of a statement. -/
def Stmt.listing : Stmt → String
  | .expression value => "ExprStmt(" ++ value.listing ++ ")"
  | .print value => "PrintStmt(" ++ value.listing ++ ")"
  | .declare var initial =>
    "VarStmt(" ++ var.text ++ ", " ++ Expr.optionalListing initial ++ ")"
  | .block body => "BlockStmt(" ++ bracketed (Stmt.listings body) ++ ")"
  | .ifElse condition yes no =>
    "IfStmt(" ++ condition.listing ++ ", " ++ yes.listing ++ ", " ++ Stmt.optionalListing no ++ ")"
  | .whileLoop condition body => "WhileStmt(" ++ condition.listing ++ ", " ++ body.listing ++ ")"
  | .forLoop initial condition step body =>
    "ForStmt(" ++ Stmt.optionalListing initial ++ ", " ++ Expr.optionalListing condition ++ ", " ++
      Expr.optionalListing step ++ ", " ++ body.listing ++ ")"
  | .function name params body =>
    "FunctionStmt(" ++ name.text ++ ", " ++ bracketed (params.map Token.text) ++ ", " ++
      bracketed (Stmt.listings body) ++ ")"
  | .ret keyword value =>
    "ReturnStmt(" ++ keyword.text ++ ", " ++ Expr.optionalListing value ++ ")"
  | .brk keyword => "BreakStmt(" ++ keyword.text ++ ")"

/-- The listings of several statements. -/
def Stmt.listings : List Stmt → List String
  | [] => []
  | s :: ss => s.listing :: Stmt.listings ss

/-- The listing of a statement that may be absent. -/
def Stmt.optionalListing : Option Stmt → String
  | some s => s.listing
  | none => "null"

end

/-- The listing of a program, a line for each statement. -/
def programListing (program : List Stmt) : String :=
  "\n".intercalate (Stmt.listings program)

end ImpCompiler
