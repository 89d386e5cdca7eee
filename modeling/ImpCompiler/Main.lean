import ImpCompiler.CommandLine.Arguments

/-! # The program

The command line on the files and streams of the system. -/

namespace ImpCompiler

/-- The error of a file, from that of the system. -/
def FileError.ofSystem : IO.Error → FileError
  | .noFileOrDirectory .. => .notFound
  | .inappropriateType .. => .isDirectory
  | e => .other (toString e)

instance : Files IO where
  read path := do
    try
      return .ok (← IO.FS.readBinFile path).data.toList
    catch e =>
      return .error (.ofSystem e)
  write path bytes := do
    try
      IO.FS.writeBinFile path ⟨bytes.toArray⟩
      return .ok ()
    catch e =>
      return .error (.ofSystem e)

/-- Writes a report to the streams of the system. -/
def Report.write (r : Report) : IO Unit := do
  IO.print r.stdout
  IO.eprint r.stderr

/-- A session on the standard input. -/
partial def interact (definitions : String) : IO Unit := do
  let line ← (← IO.getStdin).getLine
  if line.isEmpty then
    IO.print farewell
  else
    let request := Request.ofLine definitions line
    (← request.report definitions).write
    if request.isQuit then
      return ()
    else
      interact (request.definitionsAfter definitions)

end ImpCompiler

open ImpCompiler

def main (args : List String) : IO UInt32 := do
  match Invocation.ofArgs args with
  | .ok .session =>
    IO.print greeting
    interact ""
    return 0
  | _ =>
    let outcome ← runCommandLine args []
    outcome.report.write
    return outcome.code.toUInt32
