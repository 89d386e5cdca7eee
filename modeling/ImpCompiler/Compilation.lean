import ImpCompiler.Files
import ImpCompiler.Lowering
import ImpCompiler.Token.Scanner
import ImpCompiler.Tree.Parser

/-! # Compiling

From a source text to its module.  Modules are not run and not turned into object code
here: that takes a machine for them, and there is none. -/

namespace ImpCompiler

/-- Why a source text is not compiled or run. -/
inductive CompileError where
  | parse (error : ParseError)
  | lowering (error : LoweringError)
  | file (error : FileError)
  /-- There is no machine to run modules on. -/
  | noMachine
deriving DecidableEq

def CompileError.message : CompileError → String
  | .parse error => error.message
  | .lowering error => "Code generation error: " ++ error.message
  | .file error => "IO error: " ++ error.message
  | .noMachine => "Execution error: LLVM support not compiled in. Enable feature 'llvm_backend'"

/-- What comes out of a source text. -/
structure Compilation where
  tokens : List Token
  statements : List Stmt
  module : Ssa.Module

/-- The name of a module that is given none. -/
def defaultModuleName : String := "main"

/-- The program that a source text spells. -/
def parseSource (source : String) : Except ParseError (List Stmt) :=
  parseTokens (tokenize source)

/-- Compiles a source text to a module with the given name. -/
def compile (moduleName source : String) : Except CompileError Compilation :=
  let tokens := tokenize source
  match parseTokens tokens with
  | .error e => .error (.parse e)
  | .ok statements =>
    match lowerProgram moduleName statements with
    | .error e => .error (.lowering e)
    | .ok module => .ok ⟨tokens, statements, module⟩

/-- Runs a module. -/
def runModule (_module : Ssa.Module) : Except CompileError Int :=
  .error .noMachine

/-- Turns a module into object code. -/
def objectCode (_module : Ssa.Module) : Except CompileError (List UInt8) :=
  .error .noMachine

/-- Compiles a source text and runs its module. -/
def compileAndRun (moduleName source : String) : Except CompileError Int := do
  let compilation ← compile moduleName source
  runModule compilation.module

/-- Compiles a source text to object code. -/
def compileToObject (moduleName source : String) : Except CompileError (List UInt8) := do
  let compilation ← compile moduleName source
  objectCode compilation.module

/-- Compiles a file. -/
def compileFile {m : Type → Type} [Monad m] [Files m] (moduleName path : String) :
    m (Except CompileError Compilation) := do
  match ← Files.read path with
  | .ok bytes => return compile moduleName (Utf8.decode bytes)
  | .error e => return .error (.file e)

end ImpCompiler
