import ImpCompiler.CommandLine.Help
import ImpCompiler.CommandLine.Job
import ImpCompiler.CommandLine.TypedLine
import ImpCompiler.Text.Blank

/-! # Interactive sessions

A session answers line by line, once the backspaces of a line have taken back what they
are to.  A line that starts with a colon is a command; any other line is program text.  A
line that holds functions only is kept, and stands before the program text of every line
after it; variables are not kept. -/

namespace ImpCompiler

/-! ## Commands -/

/-- What a line that starts with a colon asks for. -/
inductive Command where
  | help
  | quit
  | clear
  | reset
  | source
  | load (path : Option String)
  | tokens (text : Option String)
  | tree (text : Option String)
  | assembly (text : Option String)
  | unknown (name : String)

/-- The command that a line spells: a name up to the first blank, and an argument behind
    it. -/
def Command.ofLine (line : String) : Command :=
  let name := String.ofList (line.toList.takeWhile (· != ' '))
  let argument :=
    match line.toList.dropWhile (· != ' ') with
    | [] => none
    | _ :: rest => some (Text.trim (String.ofList rest))
  match name with
  | ":help" => .help
  | ":h" => .help
  | ":quit" => .quit
  | ":q" => .quit
  | ":exit" => .quit
  | ":clear" => .clear
  | ":c" => .clear
  | ":reset" => .reset
  | ":r" => .reset
  | ":load" => .load argument
  | ":l" => .load argument
  | ":source" => .source
  | ":s" => .source
  | ":tokens" => .tokens argument
  | ":ast" => .tree argument
  | ":ir" => .assembly argument
  | other => .unknown other

/-! ## Program text -/

/-- What a line of program text amounts to. -/
inductive Entry where
  | invalid (error : CompileError)
  /-- Functions, which are kept. -/
  | definitions (count : Nat)
  /-- A program, which is run once with the functions before it. -/
  | program (source : String)

/-- The program for a line of program text. -/
def sessionProgram (definitions line : String) : String :=
  definitions ++ line ++ "\n"

def Entry.ofLine (definitions line : String) : Entry :=
  match parseSource line with
  | .error e => .invalid (.parse e)
  | .ok statements =>
    if !statements.isEmpty && statements.all Stmt.isFunction then
      match compile defaultModuleName (sessionProgram definitions line) with
      | .error e => .invalid e
      | .ok _ => .definitions statements.length
    else
      .program (sessionProgram definitions line)

/-! ## Turns -/

/-- What a line asks a session to do. -/
inductive Request where
  | nothing
  | command (command : Command)
  | entry (line : String) (entry : Entry)

def Request.ofLine (definitions line : String) : Request :=
  let line := Text.trim (typedText line)
  if line = "" then .nothing
  else if line.startsWith ":" then .command (.ofLine line)
  else .entry line (.ofLine definitions line)

/-- The definitions of a session after a request. -/
def Request.definitionsAfter (definitions : String) : Request → String
  | .command .reset => ""
  | .entry line (.definitions _) => sessionProgram definitions line
  | _ => definitions

/-- Whether a request ends the session. -/
def Request.isQuit : Request → Bool
  | .command .quit => true
  | _ => false

/-- What is shown of a job in a session. -/
def jobReport : Except CompileError Report → Report
  | .ok report => report
  | .error e => .err (e.message ++ "\n")

/-- A command that needs an argument, without one. -/
def usage (text : String) : Report :=
  .out ("Usage: " ++ text ++ "\n")

/-- What is written in answer to a command. -/
def Command.report {m : Type → Type} [Monad m] [Files m] (definitions : String) :
    Command → m Report
  | .help => return .out helpText
  | .quit => return .empty
  | .clear => return .out "\x1b[2J\x1b[1;1H"
  | .reset => return .out "Definitions cleared.\n"
  | .source =>
    return .out
      (if definitions = "" then "No functions defined.\n" else Text.trimEnd definitions ++ "\n")
  | .load none => return usage ":load <file.sit>"
  | .load (some path) => return jobReport (← performJob .run (.file path) none)
  | .tokens none => return usage ":tokens <source>"
  | .tokens (some text) => return jobReport (← performJob .tokens (.inline text) none)
  | .tree none => return usage ":ast <source>"
  | .tree (some text) => return jobReport (← performJob .tree (.inline text) none)
  | .assembly none => return usage ":ir <source>"
  | .assembly (some text) =>
    return jobReport (← performJob .assembly (.inline (definitions ++ text)) none)
  | .unknown name =>
    return .out ("Unknown command: " ++ name ++ "\nType :help for available commands.\n")

/-- What is written in answer to a request. -/
def Request.report {m : Type → Type} [Monad m] [Files m] (definitions : String) :
    Request → m Report
  | .nothing => return .empty
  | .command c => c.report definitions
  | .entry _ (.invalid e) => return .err (e.message ++ "\n")
  | .entry _ (.definitions count) =>
    return .out ("Defined " ++ toString count ++ " function(s).\n")
  | .entry _ (.program source) => return jobReport (← performJob .run (.inline source) none)

/-! ## Sessions -/

/-- What a session writes first. -/
def greeting : String :=
  version ++ "\nType :help for commands, :quit to exit.\n\n"

/-- What a session writes when its input ends. -/
def farewell : String := "Goodbye!\n"

/-- A session over the lines of its input, behind what it has written so far. -/
def runSession {m : Type → Type} [Monad m] [Files m] (definitions : String) (written : Report) :
    List String → m Report
  | [] => return written.append (.out farewell)
  | line :: lines => do
    let request := Request.ofLine definitions line
    let written := written.append (← request.report definitions)
    if request.isQuit then
      return written
    else
      runSession (request.definitionsAfter definitions) written lines

end ImpCompiler
