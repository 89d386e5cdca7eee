import ImpCompiler.Token

/-! # Parse errors

What the parser missed, and the token at which it did. -/

namespace ImpCompiler

/-- What a token sequence lacks to be a program. -/
inductive Cause where
  | functionName
  | functionOpen
  | parameterName
  | tooManyParameters
  | parametersClose
  | functionBody
  | functionEnd
  | variableName
  | declarationEnd
  | blockEnd
  /-- A keyword that starts no statement. -/
  | keyword (text : String)
  | ifOpen
  | ifClose
  | whileOpen
  | whileClose
  | forOpen
  | forCondition
  | forClose
  | printEnd
  | returnEnd
  | breakEnd
  | expressionEnd
  | assignmentTarget
  | callee
  | tooManyArguments
  | argumentsClose
  | expression
  | groupClose
  /-- The parser has used up its steps. -/
  | outOfFuel
deriving DecidableEq

/-- The wording of a cause. -/
def Cause.message : Cause → String
  | .functionName => "Expected function name."
  | .functionOpen => "Expected '(' after function name"
  | .parameterName => "Expected parameter name."
  | .tooManyParameters => "Cannot have more than 255 parameters."
  | .parametersClose => "Expected ')' after parameters."
  | .functionBody => "Expected '\x7b' before function body."
  | .functionEnd => "Expected '\x7d' after function body."
  | .variableName => "Expected variable name."
  | .declarationEnd => "Expected ';' after variable declaration."
  | .blockEnd => "Expected '\x7d' after block."
  | .keyword text => "Unexpected keyword: " ++ text
  | .ifOpen => "Expected '(' after 'if'."
  | .ifClose => "Expected ')' after if condition."
  | .whileOpen => "Expected '(' after 'while'."
  | .whileClose => "Expected ')' after condition."
  | .forOpen => "Expected '(' after 'for'."
  | .forCondition => "Expected ';' after loop condition."
  | .forClose => "Expected ')' after for clauses."
  | .printEnd => "Expected ';' after screenit value."
  | .returnEnd => "Expected ';' after return value."
  | .breakEnd => "Expected ';' after break."
  | .expressionEnd => "Expected ';' after expression."
  | .assignmentTarget => "Invalid assignment target."
  | .callee => "Expected function name for call expression."
  | .tooManyArguments => "Cannot have more than 255 arguments."
  | .argumentsClose => "Expected ')' after arguments."
  | .expression => "Expected expression."
  | .groupClose => "Expected ')' after expression."
  | .outOfFuel => "The parser has used up its steps."

/-- A parse error: its cause, and position and text of the token it was found at. -/
structure ParseError where
  cause : Cause
  position : Position
  found : String
deriving DecidableEq

namespace ParseError

/-- The error found at a token. -/
def atToken (t : Token) (cause : Cause) : ParseError :=
  ⟨cause, t.position, if t.isEnd then "end of file" else t.text⟩

/-- The error found at the first of the tokens that are left. -/
def here (rest : List Token) (cause : Cause) : ParseError :=
  .atToken (rest.headD (.endOfFile .start)) cause

/-- The wording of an error. -/
def message (e : ParseError) : String :=
  "Parse error at line " ++ toString e.position.line ++ ", column " ++ toString e.position.column ++
    " near '" ++ e.found ++ "': " ++ e.cause.message

end ParseError

end ImpCompiler
