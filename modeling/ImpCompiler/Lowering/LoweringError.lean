import ImpCompiler.Ssa.Emitter
import ImpCompiler.Ssa.Problem
import ImpCompiler.Token

/-! # Lowering errors

Why a program has no module, and where. -/

namespace ImpCompiler

open Ssa (Ty EmitError CheckError)

inductive LoweringError where
  | undefinedVariable (name : String) (position : Position)
  | unknownFunction (name : String) (position : Position)
  | typeMismatch (op : String) (left right : Ty) (position : Position)
  | unsupportedOperator (op : String) (ty : Ty) (position : Position)
  | unsupportedPrint (ty : Ty) (position : Position)
  | invalidCondition (ty : Ty) (position : Position)
  | invalidLiteral (text : String) (position : Position)
  | duplicateFunction (name : String) (position : Position)
  | argumentCount (name : String) (expected found : Nat) (position : Position)
  | argumentType (name : String) (index : Nat) (expected found : Ty) (position : Position)
  | voidValue (name : String) (position : Position)
  /-- The module could not be written. -/
  | emit (error : EmitError)
  /-- The module was written, and is not well formed. -/
  | malformed (error : CheckError)
deriving DecidableEq

def LoweringError.message : LoweringError → String
  | .undefinedVariable name p => "Undefined variable: " ++ name ++ " at " ++ p.text
  | .unknownFunction name p => "Unknown function referenced: " ++ name ++ " at " ++ p.text
  | .typeMismatch op left right p =>
    "Type mismatch: " ++ left.text ++ " " ++ op ++ " " ++ right.text ++ " at " ++ p.text
  | .unsupportedOperator op ty p =>
    "Unsupported operator '" ++ op ++ "' for " ++ ty.text ++ " at " ++ p.text
  | .unsupportedPrint ty p =>
    "Unsupported type in print statement: " ++ ty.text ++ " at " ++ p.text
  | .invalidCondition ty p =>
    "Condition of type " ++ ty.text ++ " cannot be tested at " ++ p.text
  | .invalidLiteral text p => "Invalid literal '" ++ text ++ "' at " ++ p.text
  | .duplicateFunction name p =>
    "Function '" ++ name ++ "' is already defined (at " ++ p.text ++ ")"
  | .argumentCount name expected found p =>
    "Function '" ++ name ++ "' expects " ++ toString expected ++ " arguments but got " ++
      toString found ++ " at " ++ p.text
  | .argumentType name index expected found p =>
    "Argument " ++ toString index ++ " of '" ++ name ++ "' must be " ++ expected.text ++
      " but is " ++ found.text ++ " at " ++ p.text
  | .voidValue name p => "Call to '" ++ name ++ "' produces no value at " ++ p.text
  | .emit error => "Builder error: " ++ error.message
  | .malformed error => "Module verification failed: " ++ error.message

end ImpCompiler
