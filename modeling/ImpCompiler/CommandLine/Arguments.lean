import ImpCompiler.CommandLine.Session

/-! # The command line

The arguments say which job to do; without any, a session starts. -/

namespace ImpCompiler

/-- What is wrong with the arguments. -/
inductive UsageError where
  | missingPath
  | missingSource
  | secondInput
  | noInput
  | unknownOption (option : String)

def UsageError.message : UsageError → String
  | .missingPath => "Option -o requires a path."
  | .missingSource => "Option -e requires source text."
  | .secondInput => "Only one input (file or -e) may be given."
  | .noInput => "No input given."
  | .unknownOption option => "Unknown option: " ++ option

/-- The options read so far. -/
structure Options where
  action : Action
  input : Option Input
  output : Option String

/-- What the arguments ask for. -/
inductive Invocation where
  | help
  | version
  | session
  | job (action : Action) (input : Input) (output : Option String)

/-- What the options ask for when there are no more arguments. -/
def Options.finish (o : Options) : Except UsageError Invocation :=
  match o.input with
  | some input => .ok (.job o.action input o.output)
  | none =>
    if o.action = .run ∧ o.output.isNone then .ok .session else .error .noInput

/-- Takes an input, of which there may be one. -/
def Options.setInput (o : Options) (input : Input) : Except UsageError Options :=
  match o.input with
  | some _ => .error .secondInput
  | none => .ok { o with input := some input }

/-- What a single argument is. -/
inductive Argument where
  | help
  | version
  | action (action : Action)
  /-- A path to write to follows. -/
  | output
  /-- A source text follows. -/
  | source
  | unknown
  | file

def Argument.ofText (arg : String) : Argument :=
  match arg with
  | "--help" => .help
  | "-h" => .help
  | "--version" => .version
  | "-v" => .version
  | "--tokens" => .action .tokens
  | "--ast" => .action .tree
  | "--ast-json" => .action .treeJson
  | "--emit-ir" => .action .assembly
  | "-o" => .output
  | "--output" => .output
  | "-e" => .source
  | "--eval" => .source
  | arg => if arg.startsWith "-" then .unknown else .file

/-- Reads the arguments from left to right; a call for help is heeded at once. -/
def Options.read (o : Options) : List String → Except UsageError Invocation
  | [] => o.finish
  | arg :: args =>
    match Argument.ofText arg with
    | .help => .ok .help
    | .version => .ok .version
    | .action action => Options.read { o with action := action } args
    | .output =>
      match args with
      | [] => .error .missingPath
      | path :: args => Options.read { o with output := some path } args
    | .source =>
      match args with
      | [] => .error .missingSource
      | source :: args =>
        match o.setInput (.inline source) with
        | .ok o => Options.read o args
        | .error e => .error e
    | .unknown => .error (.unknownOption arg)
    | .file =>
      match o.setInput (.file arg) with
      | .ok o => Options.read o args
      | .error e => .error e

/-- What the arguments ask for. -/
def Invocation.ofArgs (args : List String) : Except UsageError Invocation :=
  Options.read ⟨.run, none, none⟩ args

/-! ## Runs -/

/-- What a run writes, and the code it ends with. -/
structure Outcome where
  code : Nat
  report : Report

/-- The outcome of a run whose arguments are wrong. -/
def usageOutcome (e : UsageError) : Outcome :=
  ⟨1, .err (e.message ++ "\nUse --help for usage information.\n")⟩

/-- The outcome of a job. -/
def jobOutcome : Except CompileError Report → Outcome
  | .ok report => ⟨0, report⟩
  | .error e => ⟨1, .err ("Error: " ++ e.message ++ "\n")⟩

/-- Does what the arguments ask for; `lines` is the input of a session. -/
def runCommandLine {m : Type → Type} [Monad m] [Files m] (args lines : List String) :
    m Outcome := do
  match Invocation.ofArgs args with
  | .error e => return usageOutcome e
  | .ok .help => return ⟨0, .out helpText⟩
  | .ok .version => return ⟨0, .out (version ++ "\n")⟩
  | .ok .session => return ⟨0, ← runSession "" (.out greeting) lines⟩
  | .ok (.job action input output) => return jobOutcome (← performJob action input output)

/-- A run in a directory, on the given text as input. -/
def runIn (dir : Directory) (args : List String) (input : String) : Outcome × Directory :=
  (runCommandLine args (input.splitOn "\n") : InDirectory Outcome).run dir

end ImpCompiler
