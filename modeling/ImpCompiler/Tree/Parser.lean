import ImpCompiler.Tree
import ImpCompiler.Tree.ParseError

/-! # The parser

A parser reads from the front of a token list and leaves the rest, on failure as
on success.  Any end token ends the input and is never taken.

All operators of arithmetic bind alike and from the left; comparisons bind looser
and from the left; assignment binds loosest and from the right.

The functions that read the grammar call each other through `n` steps at most.
`Parser.steps` gives them more than a token list can use up: no function calls
more than nine others in a chain without taking a token. -/

namespace ImpCompiler

/-- A reader of tokens: what is left of the input is its state. -/
abbrev Parser := EStateM ParseError (List Token)

namespace Parser

/-- A call has at most this many arguments, and a function this many parameters. -/
def maxArguments : Nat := 255

/-! ## Single tokens -/

/-- Whether the input has ended. -/
def atEnd (rest : List Token) : Bool :=
  match rest with
  | [] => true
  | t :: _ => t.isEnd

/-- Fails at the next token. -/
def failHere {α : Type} (cause : Cause) : Parser α :=
  fun rest => .error (.here rest cause) rest

/-- Fails at the token `t`. -/
def failAt {α : Type} (t : Token) (cause : Cause) : Parser α :=
  fun rest => .error (.atToken t cause) rest

/-- Takes the next token if it is not the end of the input and `p` holds of it. -/
def takeIf (p : Token → Bool) : Parser (Option Token) :=
  fun rest =>
    match rest with
    | [] => .ok none []
    | t :: behind => if !t.isEnd && p t then .ok (some t) behind else .ok none (t :: behind)

/-- Takes the next token if it has the given kind. -/
def accept (kind : Kind) : Parser (Option Token) :=
  takeIf fun t => t.kind == kind

/-- Takes the next token if it has the given kind and text. -/
def acceptText (kind : Kind) (text : String) : Parser (Option Token) :=
  takeIf fun t => t.is kind text

/-- Takes the next token if it is the sign of a unary operator. -/
def acceptSign : Parser (Option Token) :=
  takeIf fun t => t.is .arithmetic "-" || t.is .operator "!"

/-- Takes the next token, which has to have the given kind. -/
def expect (kind : Kind) (cause : Cause) : Parser Token := do
  match ← accept kind with
  | some t => return t
  | none => failHere cause

/-- Whether the next token has the given kind. -/
def nextIs (kind : Kind) : Parser Bool :=
  fun rest =>
    match rest with
    | [] => .ok false []
    | t :: behind => .ok (!t.isEnd && t.kind == kind) (t :: behind)

/-! ## Expressions -/

mutual

/-- An assignment, or else a comparison. -/
def expression : Nat → Parser Expr
  | 0 => failHere .outOfFuel
  | n + 1 => do
    let left ← comparison n
    match ← acceptText .operator "=" with
    | none => return left
    | some equals =>
      let value ← expression n
      match left with
      | .name target => return .assign target value
      | _ => failAt equals .assignmentTarget

/-- Arithmetic, compared any number of times. -/
def comparison : Nat → Parser Expr
  | 0 => failHere .outOfFuel
  | n + 1 => do
    let left ← arithmetic n
    comparisonRest n left

/-- The comparisons that follow `left`. -/
def comparisonRest : Nat → Expr → Parser Expr
  | 0, _ => failHere .outOfFuel
  | n + 1, left => do
    match ← accept .compare with
    | none => return left
    | some op =>
      let right ← arithmetic n
      comparisonRest n (.binary left op right)

/-- Operands joined by the operators of arithmetic. -/
def arithmetic : Nat → Parser Expr
  | 0 => failHere .outOfFuel
  | n + 1 => do
    let left ← unary n
    arithmeticRest n left

/-- The operators and operands that follow `left`. -/
def arithmeticRest : Nat → Expr → Parser Expr
  | 0, _ => failHere .outOfFuel
  | n + 1, left => do
    match ← accept .arithmetic with
    | none => return left
    | some op =>
      let right ← unary n
      arithmeticRest n (.binary left op right)

/-- An operand with any number of signs before it. -/
def unary : Nat → Parser Expr
  | 0 => failHere .outOfFuel
  | n + 1 => do
    match ← acceptSign with
    | some op =>
      let operand ← unary n
      return .unary op operand
    | none =>
      let operand ← primary n
      callRest n operand

/-- The argument lists that follow `callee`: a name can be called, and once. -/
def callRest : Nat → Expr → Parser Expr
  | 0, _ => failHere .outOfFuel
  | n + 1, callee => do
    match ← accept .leftParen with
    | none => return callee
    | some paren =>
      match callee with
      | .name function =>
        let arguments ← if ← nextIs .rightParen then pure [] else argumentList n []
        let _ ← expect .rightParen .argumentsClose
        callRest n (.call function arguments)
      | _ => failAt paren .callee

/-- The further arguments of a call, behind those in `read`, which are in reverse
    order. -/
def argumentList : Nat → List Expr → Parser (List Expr)
  | 0, _ => failHere .outOfFuel
  | n + 1, read => do
    if read.length ≥ maxArguments then
      failHere .tooManyArguments
    else
      let argument ← expression n
      match ← accept .comma with
      | some _ => argumentList n (argument :: read)
      | none => return (argument :: read).reverse

/-- A literal, a name, or an expression in parentheses. -/
def primary : Nat → Parser Expr
  | 0 => failHere .outOfFuel
  | n + 1 => do
    match ← takeIf fun t =>
        t.kind ∈ [.boolLiteral, .intLiteral, .floatLiteral, .stringLiteral, .identifier,
          .leftParen] with
    | none => failHere .expression
    | some t =>
      match t.kind with
      | .identifier => return .name t
      | .leftParen =>
        let inner ← expression n
        let _ ← expect .rightParen .groupClose
        return .group inner
      | _ => return .literal t

end

/-! ## Statements -/

/-- What follows the keyword of a variable declaration. -/
def declaredVariable (n : Nat) : Parser Stmt := do
  let var ← expect .identifier .variableName
  match ← acceptText .operator "=" with
  | some _ =>
    let initial ← expression n
    let _ ← expect .semicolon .declarationEnd
    return .declare var (some initial)
  | none =>
    let _ ← expect .semicolon .declarationEnd
    return .declare var none

/-- An expression that is a statement. -/
def expressionStatement (n : Nat) : Parser Stmt := do
  let value ← expression n
  let _ ← expect .semicolon .expressionEnd
  return .expression value

/-- What follows the keyword of a print statement. -/
def printed (n : Nat) : Parser Stmt := do
  let value ← expression n
  let _ ← expect .semicolon .printEnd
  return .print value

/-- What follows the keyword of a return statement. -/
def returned (n : Nat) (keyword : Token) : Parser Stmt := do
  if ← nextIs .semicolon then
    let _ ← expect .semicolon .returnEnd
    return .ret keyword none
  else
    let value ← expression n
    let _ ← expect .semicolon .returnEnd
    return .ret keyword (some value)

/-- What follows the keyword of a break statement. -/
def broken (keyword : Token) : Parser Stmt := do
  let _ ← expect .semicolon .breakEnd
  return .brk keyword

/-- A condition in parentheses. -/
def condition (n : Nat) (opening closing : Cause) : Parser Expr := do
  let _ ← expect .leftParen opening
  let value ← expression n
  let _ ← expect .rightParen closing
  return value

/-- The first clause of a counting loop. -/
def forInitial (n : Nat) : Parser (Option Stmt) := do
  match ← accept .semicolon with
  | some _ => return none
  | none =>
    match ← acceptText .keyword "var" with
    | some _ => some <$> declaredVariable n
    | none => some <$> expressionStatement n

/-- A clause of a counting loop that may be left out, and the token that ends it. -/
def forClause (n : Nat) (ending : Kind) (cause : Cause) : Parser (Option Expr) := do
  if ← nextIs ending then
    let _ ← expect ending cause
    return none
  else
    let value ← expression n
    let _ ← expect ending cause
    return some value

/-- The names of the parameters of a function, behind those in `read`, which are in
    reverse order. -/
def parameterList : Nat → List Token → Parser (List Token)
  | 0, _ => failHere .outOfFuel
  | n + 1, read => do
    if read.length ≥ maxArguments then
      failHere .tooManyParameters
    else
      let param ← expect .identifier .parameterName
      match ← accept .comma with
      | some _ => parameterList n (param :: read)
      | none => return (param :: read).reverse

/-- Name and parameters of a function, up to the brace that opens its body. -/
def functionHead (n : Nat) : Parser (Token × List Token) := do
  let name ← expect .identifier .functionName
  let _ ← expect .leftParen .functionOpen
  let params ← if ← nextIs .rightParen then pure [] else parameterList n []
  let _ ← expect .rightParen .parametersClose
  let _ ← expect .leftBrace .functionBody
  return (name, params)

mutual

/-- A function, a variable declaration, or else a statement. -/
def declaration : Nat → Parser Stmt
  | 0 => failHere .outOfFuel
  | n + 1 => do
    match ← acceptText .keyword "func" with
    | some _ =>
      let (name, params) ← functionHead n
      let body ← blockRest n .functionEnd []
      return .function name params body
    | none =>
      match ← acceptText .keyword "var" with
      | some _ => declaredVariable n
      | none => statement n

/-- A statement that declares nothing. -/
def statement : Nat → Parser Stmt
  | 0 => failHere .outOfFuel
  | n + 1 => do
    match ← accept .leftBrace with
    | some _ => .block <$> blockRest n .blockEnd []
    | none =>
      match ← accept .keyword with
      | some keyword => keywordStatement n keyword
      | none => expressionStatement n

/-- What follows the keyword of a statement. -/
def keywordStatement : Nat → Token → Parser Stmt
  | 0, _ => failHere .outOfFuel
  | n + 1, keyword =>
    match keyword.text with
    | "if" => do
      let test ← condition n .ifOpen .ifClose
      let yes ← statement n
      match ← acceptText .keyword "else" with
      | some _ =>
        let no ← statement n
        return .ifElse test yes (some no)
      | none => return .ifElse test yes none
    | "while" => do
      let test ← condition n .whileOpen .whileClose
      let body ← statement n
      return .whileLoop test body
    | "for" => do
      let _ ← expect .leftParen .forOpen
      let initial ← forInitial n
      let test ← forClause n .semicolon .forCondition
      let step ← forClause n .rightParen .forClose
      let body ← statement n
      return Stmt.desugarFor initial test step body
    | "screenit" => printed n
    | "return" => returned n keyword
    | "break" => broken keyword
    | other => failAt keyword (.keyword other)

/-- The further declarations of a block and the brace that ends it, behind the
    declarations in `read`, which are in reverse order. -/
def blockRest : Nat → Cause → List Stmt → Parser (List Stmt)
  | 0, _, _ => failHere .outOfFuel
  | n + 1, ending, read => do
    match ← accept .rightBrace with
    | some _ => return read.reverse
    | none =>
      if atEnd (← get) then
        failHere ending
      else
        let next ← declaration n
        blockRest n ending (next :: read)

end

/-! ## Programs -/

/-- Whether a token is left out where a top-level statement might start. -/
def isStray (t : Token) : Bool :=
  t.kind == .unknown || t.text == ""

/-- The further statements of a program, behind those in `read`, which are in
    reverse order.  An error that leaves nothing of the input is forgotten, and the
    statements before it are the program. -/
def statements : Nat → List Stmt → Parser (List Stmt)
  | 0, _ => failHere .outOfFuel
  | n + 1, read => fun rest =>
    match rest with
    | [] => .ok read.reverse []
    | t :: behind =>
      if t.isEnd then
        .ok read.reverse (t :: behind)
      else if isStray t then
        statements n read behind
      else
        match declaration n (t :: behind) with
        | .ok next rest => statements n (next :: read) rest
        | .error e rest => if atEnd rest then .ok read.reverse rest else .error e rest

/-- More steps than the tokens of a program can use up. -/
def steps (rest : List Token) : Nat :=
  16 * (rest.length + 1)

/-- A program. -/
def program : Parser (List Stmt) :=
  fun rest => statements (steps rest) [] rest

end Parser

/-- The tokens with an end token behind them, unless they have one there. -/
def closeTokens (tokens : List Token) : List Token :=
  match tokens.getLast? with
  | some last =>
    if last.isEnd then tokens else tokens ++ [.endOfFile last.position]
  | none => [.endOfFile .start]

/-- The program that the tokens spell. -/
def parseTokens (tokens : List Token) : Except ParseError (List Stmt) :=
  match Parser.program (closeTokens tokens) with
  | .ok program _ => .ok program
  | .error e _ => .error e

end ImpCompiler
