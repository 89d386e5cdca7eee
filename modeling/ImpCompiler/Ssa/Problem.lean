import ImpCompiler.Ssa.Module

/-! # Problems of a module

What can be wrong with the structure of a module.  Messages name blocks by their
labels and values by their names. -/

namespace ImpCompiler.Ssa

/-- The part that an operand plays where its type is fixed. -/
inductive Role where
  | loadAddress
  | storeAddress
  | storedValue
  | leftOperand
  | rightOperand
  | negatedOperand
  | callArgument
  | returnValue
  | branchCondition
deriving DecidableEq

def Role.text : Role → String
  | .loadAddress => "load address"
  | .storeAddress => "store address"
  | .storedValue => "stored value"
  | .leftOperand => "left operand"
  | .rightOperand => "right operand"
  | .negatedOperand => "fneg operand"
  | .callArgument => "call argument"
  | .returnValue => "return value"
  | .branchCondition => "branch condition"

/-- What is wrong in a function. -/
inductive Problem where
  | functionRedefined
  | unknownResult (id : Nat)
  | valueRedefined (name : String)
  | missingTerminator (block : String)
  | constantType (ty : Ty) (block : String)
  | unknownGlobal (id : Nat) (block : String)
  | parameterType (index : Nat) (block : String)
  | unknownParameter (index : Nat) (block : String)
  | undefinedValue (name : String) (block : String)
  | valueType (name : String) (used actual : Ty) (block : String)
  | unknownValue (id : Nat) (block : String)
  | operandType (role : Role) (expected actual : Ty) (block : String)
  | voidSlot (block : String)
  | operatorType (op : BinaryOp) (ty : Ty) (block : String)
  | comparedType (ty : Ty) (block : String)
  | extension (source target : Ty) (block : String)
  | unknownCallee (id : Nat) (block : String)
  | argumentCount (callee : String) (passed expected : Nat)
  | callResult (callee : String) (ty : Ty)
  | unknownTarget (id : Nat) (block : String)
  | missingReturnValue (ty : Ty) (block : String)
deriving DecidableEq

/-- The end of a message that says which block it is about. -/
def inBlock (block : String) : String :=
  " in '" ++ block ++ "'"

def Problem.message : Problem → String
  | .functionRedefined => "function is defined more than once"
  | .unknownResult id => "instruction defines unknown value #" ++ toString id
  | .valueRedefined name => "value '%" ++ name ++ "' is defined more than once"
  | .missingTerminator block => "block '" ++ block ++ "' has no terminator"
  | .constantType ty block => "integer constant of type " ++ ty.text ++ inBlock block
  | .unknownGlobal id block => "reference to unknown global #" ++ toString id ++ inBlock block
  | .parameterType index block =>
    "parameter #" ++ toString index ++ " used with wrong type" ++ inBlock block
  | .unknownParameter index block =>
    "reference to unknown parameter #" ++ toString index ++ inBlock block
  | .undefinedValue name block => "use of undefined value '%" ++ name ++ "'" ++ inBlock block
  | .valueType name used actual block =>
    "value '%" ++ name ++ "' used as " ++ used.text ++ " but has type " ++ actual.text ++
      inBlock block
  | .unknownValue id block => "reference to unknown value #" ++ toString id ++ inBlock block
  | .operandType role expected actual block =>
    role.text ++ " must be " ++ expected.text ++ " but is " ++ actual.text ++ inBlock block
  | .voidSlot block => "alloca of void" ++ inBlock block
  | .operatorType op ty block => "'" ++ op.mnemonic ++ "' applied to " ++ ty.text ++ inBlock block
  | .comparedType ty block => "icmp applied to " ++ ty.text ++ inBlock block
  | .extension source target block =>
    "zext from " ++ source.text ++ " to " ++ target.text ++ inBlock block
  | .unknownCallee id block => "call to unknown function #" ++ toString id ++ inBlock block
  | .argumentCount callee passed expected =>
    "call to '" ++ callee ++ "' passes " ++ toString passed ++ " arguments, expected " ++
      toString expected
  | .callResult callee ty =>
    "call to '" ++ callee ++ "' result does not match return type " ++ ty.text
  | .unknownTarget id block => "branch to unknown block #" ++ toString id ++ " from '" ++ block ++ "'"
  | .missingReturnValue ty block =>
    "'ret void' in function returning " ++ ty.text ++ " ('" ++ block ++ "')"

/-- A problem, and the name of the function it was found in. -/
structure CheckError where
  function : String
  problem : Problem
deriving DecidableEq

def CheckError.message (e : CheckError) : String :=
  "in function '" ++ e.function ++ "': " ++ e.problem.message

end ImpCompiler.Ssa
