import ImpCompiler.Json
import ImpCompiler.Tree

/-! # The JSON form of trees

Trees are written in the externally tagged form, one of the usual ones for unions and
records.  Each node is an object with one field, named for the kind of node, whose value
has a field for each part, in the order of the parts.  A token and a position have one
kind only and so no tag, and the kind of a token is its name alone.  Lists are arrays.
A part that may be absent is null when it is.

The encoder follows this format in all of its output.  The decoder is made for that output.
As the format has it, fields may stand in any order, a left out field is null where a part
may be absent, and fields that are not known are left unread.  Elsewhere the decoder is
stricter than readers of the format are: it takes no array of the parts for a record, and no
object with a null field for a name.  And it is laxer where nothing depends on it: it reads the
first of two fields of one name, and positions of any size. -/

namespace ImpCompiler

/-! ## Tokens -/

def Position.toJson (p : Position) : Json :=
  .obj [("line", .nat p.line), ("column", .nat p.column)]

def Position.ofJson? (j : Json) : Option Position := do
  return ⟨← j.get? "line" Json.nat?, ← j.get? "column" Json.nat?⟩

def Token.toJson (t : Token) : Json :=
  .obj [("kind", .str t.kind.name), ("text", .str t.text), ("position", t.position.toJson)]

def Token.ofJson? (j : Json) : Option Token := do
  let kind ← (← j.get? "kind" Json.str?) |> Kind.ofName?
  let text ← j.get? "text" Json.str?
  let position ← j.get? "position" Position.ofJson?
  return ⟨kind, text, position⟩

/-! ## Expressions -/

mutual

def Expr.toJson : Expr → Json
  | .binary left op right =>
    .tagged "Binary" [("left", left.toJson), ("op", op.toJson), ("right", right.toJson)]
  | .unary op operand => .tagged "Unary" [("op", op.toJson), ("right", operand.toJson)]
  | .literal value => .tagged "Literal" [("value", value.toJson)]
  | .name var => .tagged "Variable" [("name", var.toJson)]
  | .assign target value =>
    .tagged "Assign" [("name", target.toJson), ("value", value.toJson)]
  | .call callee arguments =>
    .tagged "Call" [("callee", callee.toJson), ("arguments", .arr (Expr.listToJson arguments))]
  | .group inner => .tagged "Grouping" [("expression", inner.toJson)]

def Expr.listToJson : List Expr → List Json
  | [] => []
  | e :: es => e.toJson :: Expr.listToJson es

end

def Expr.ofJson? (j : Json) : Option Expr :=
  match j with
  | .obj [(tag, node)] =>
    match tag with
    | "Binary" => do
      let left ← node.atField "left" fun value _ => Expr.ofJson? value
      let op ← node.get? "op" Token.ofJson?
      let right ← node.atField "right" fun value _ => Expr.ofJson? value
      return .binary left op right
    | "Unary" => do
      let op ← node.get? "op" Token.ofJson?
      let operand ← node.atField "right" fun value _ => Expr.ofJson? value
      return .unary op operand
    | "Literal" => do
      return .literal (← node.get? "value" Token.ofJson?)
    | "Variable" => do
      return .name (← node.get? "name" Token.ofJson?)
    | "Assign" => do
      let target ← node.get? "name" Token.ofJson?
      let value ← node.atField "value" fun value _ => Expr.ofJson? value
      return .assign target value
    | "Call" => do
      let callee ← node.get? "callee" Token.ofJson?
      let arguments ← node.atField "arguments" fun list _ =>
        list.atItems fun value _ => Expr.ofJson? value
      return .call callee arguments
    | "Grouping" => do
      return .group (← node.atField "expression" fun value _ => Expr.ofJson? value)
    | _ => none
  | _ => none
termination_by sizeOf j
decreasing_by
  all_goals
    simp only [Json.obj.sizeOf_spec, List.cons.sizeOf_spec, Prod.mk.sizeOf_spec]
    omega

/-! ## Statements -/

mutual

def Stmt.toJson : Stmt → Json
  | .expression value => .tagged "Expression" [("expression", value.toJson)]
  | .print value => .tagged "Print" [("expression", value.toJson)]
  | .declare var initial =>
    .tagged "Var" [("name", var.toJson), ("initializer", .optional Expr.toJson initial)]
  | .block body => .tagged "Block" [("statements", .arr (Stmt.listToJson body))]
  | .ifElse condition yes no =>
    .tagged "If"
      [("condition", condition.toJson), ("then_branch", yes.toJson),
        ("else_branch", Stmt.optionToJson no)]
  | .whileLoop condition body =>
    .tagged "While" [("condition", condition.toJson), ("body", body.toJson)]
  | .forLoop initial condition step body =>
    .tagged "For"
      [("initializer", Stmt.optionToJson initial), ("condition", .optional Expr.toJson condition),
        ("increment", .optional Expr.toJson step), ("body", body.toJson)]
  | .function name params body =>
    .tagged "Function"
      [("name", name.toJson), ("params", .arr (params.map Token.toJson)),
        ("body", .arr (Stmt.listToJson body))]
  | .ret keyword value =>
    .tagged "Return" [("keyword", keyword.toJson), ("value", .optional Expr.toJson value)]
  | .brk keyword => .tagged "Break" [("keyword", keyword.toJson)]

def Stmt.listToJson : List Stmt → List Json
  | [] => []
  | s :: ss => s.toJson :: Stmt.listToJson ss

def Stmt.optionToJson : Option Stmt → Json
  | some s => s.toJson
  | none => .null

end

def Stmt.ofJson? (j : Json) : Option Stmt :=
  match j with
  | .obj [(tag, node)] =>
    match tag with
    | "Expression" => do
      return .expression (← node.get? "expression" Expr.ofJson?)
    | "Print" => do
      return .print (← node.get? "expression" Expr.ofJson?)
    | "Var" => do
      let var ← node.get? "name" Token.ofJson?
      let initial ← node.getOptional? "initializer" Expr.ofJson?
      return .declare var initial
    | "Block" => do
      let body ← node.atField "statements" fun list _ =>
        list.atItems fun value _ => Stmt.ofJson? value
      return .block body
    | "If" => do
      let condition ← node.get? "condition" Expr.ofJson?
      let yes ← node.atField "then_branch" fun value _ => Stmt.ofJson? value
      let no ← node.atOptional "else_branch" fun value _ => Stmt.ofJson? value
      return .ifElse condition yes no
    | "While" => do
      let condition ← node.get? "condition" Expr.ofJson?
      let body ← node.atField "body" fun value _ => Stmt.ofJson? value
      return .whileLoop condition body
    | "For" => do
      let initial ← node.atOptional "initializer" fun value _ => Stmt.ofJson? value
      let condition ← node.getOptional? "condition" Expr.ofJson?
      let step ← node.getOptional? "increment" Expr.ofJson?
      let body ← node.atField "body" fun value _ => Stmt.ofJson? value
      return .forLoop initial condition step body
    | "Function" => do
      let name ← node.get? "name" Token.ofJson?
      let params ← node.get? "params" fun list => list.list? Token.ofJson?
      let body ← node.atField "body" fun list _ =>
        list.atItems fun value _ => Stmt.ofJson? value
      return .function name params body
    | "Return" => do
      let keyword ← node.get? "keyword" Token.ofJson?
      let value ← node.getOptional? "value" Expr.ofJson?
      return .ret keyword value
    | "Break" => do
      return .brk (← node.get? "keyword" Token.ofJson?)
    | _ => none
  | _ => none
termination_by sizeOf j
decreasing_by
  all_goals
    simp only [Json.obj.sizeOf_spec, List.cons.sizeOf_spec, Prod.mk.sizeOf_spec]
    omega

/-- The JSON form of a program. -/
def programToJson (program : List Stmt) : Json :=
  .arr (Stmt.listToJson program)

/-- The program with a given JSON form. -/
def programOfJson? (j : Json) : Option (List Stmt) :=
  j.list? Stmt.ofJson?

end ImpCompiler
