import ImpCompiler.Compilation
import ImpCompiler.Ssa.Assembly
import ImpCompiler.Tree.Json
import ImpCompiler.Tree.Listing

/-! # Jobs

A job takes one source text as far as it is asked to: to its tokens, to its trees, to
its module, or to a run of it.  Where there is no machine to run it on, the module is
shown instead. -/

namespace ImpCompiler

/-- How far a source text is taken. -/
inductive Action where
  | run
  | tokens
  | tree
  | treeJson
  | assembly
deriving DecidableEq

/-- Where a source text comes from. -/
inductive Input where
  | file (path : String)
  | inline (source : String)

/-- What is written to the two streams of output. -/
structure Report where
  stdout : String
  stderr : String

namespace Report

/-- Nothing is written. -/
def empty : Report := ⟨"", ""⟩

def out (text : String) : Report := ⟨text, ""⟩

def err (text : String) : Report := ⟨"", text⟩

/-- One report, then the other. -/
def append (a b : Report) : Report := ⟨a.stdout ++ b.stdout, a.stderr ++ b.stderr⟩

end Report

/-- The source text of an input. -/
def readInput {m : Type → Type} [Monad m] [Files m] : Input → m (Except FileError String)
  | .inline source => return .ok source
  | .file path => do
    match ← Files.read path with
    | .ok bytes => return .ok (Utf8.decode bytes)
    | .error e => return .error e

/-- The module of a job that writes no file. -/
def showModule (action : Action) (module : Ssa.Module) : Report :=
  if action = .run then
    ⟨module.assembly, "LLVM support not compiled in; printing IR instead.\n"⟩
  else
    .out module.assembly

/-- Writes a module to a file: as object code if the path asks for it, or else as text. -/
def writeModule {m : Type → Type} [Monad m] [Files m] (path : String) (module : Ssa.Module) :
    m (Except CompileError Unit) := do
  if pathExtension? path = some "o" then
    match objectCode module with
    | .error e => return .error e
    | .ok bytes => return (← Files.write path bytes).mapError .file
  else
    return (← Files.write path module.assembly.toUTF8.data.toList).mapError .file

/-- Does a job.  Trees and tokens are shown; a module is written to the file `output`, if
    there is one, and shown unless that was all. -/
def performJob {m : Type → Type} [Monad m] [Files m] (action : Action) (input : Input)
    (output : Option String) : m (Except CompileError Report) := do
  match ← readInput input with
  | .error e => return .error (.file e)
  | .ok source =>
    match action with
    | .tokens =>
      return .ok (.out ((tokenize source).foldl (fun text t => text ++ t.describe ++ "\n") ""))
    | .tree =>
      match parseSource source with
      | .error e => return .error (.parse e)
      | .ok statements => return .ok (.out (programListing statements ++ "\n"))
    | .treeJson =>
      match parseSource source with
      | .error e => return .error (.parse e)
      | .ok statements => return .ok (.out ((programToJson statements).pretty ++ "\n"))
    | _ =>
      match compile defaultModuleName source with
      | .error e => return .error e
      | .ok compilation =>
        match output with
        | none => return .ok (showModule action compilation.module)
        | some path =>
          match ← writeModule path compilation.module with
          | .error e => return .error e
          | .ok () =>
            return .ok (if action = .run then .empty else showModule action compilation.module)

end ImpCompiler
