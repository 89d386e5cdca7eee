/-! # Files

The files that the command line reads and writes, and the ways in which that fails.
`Directory` is one flat directory, seen from within. -/

namespace ImpCompiler

/-- Why a file cannot be read or written. -/
inductive FileError where
  | notFound
  | isDirectory
  | notDirectory
  | nameTooLong
  | zeroByte
  /-- Any other failure, in the words of the system. -/
  | other (message : String)
deriving DecidableEq

def FileError.message : FileError → String
  | .notFound => "No such file or directory (os error 2)"
  | .isDirectory => "Is a directory (os error 21)"
  | .notDirectory => "Not a directory (os error 20)"
  | .nameTooLong => "File name too long (os error 36)"
  | .zeroByte => "file name contained an unexpected NUL byte"
  | .other message => message

/-- A place to read files from and to write files to. -/
class Files (m : Type → Type) where
  read : String → m (Except FileError (List UInt8))
  write : String → List UInt8 → m (Except FileError Unit)

/-! ## Paths -/

/-- The steps of a path: what stands between its slashes. -/
def pathSteps (path : String) : List String :=
  (path.splitOn "/").filter (· != "")

/-- What stands behind the last dot of a file name.  A dot that starts the name starts no
    extension. -/
def nameExtension? (name : String) : Option String :=
  match (name.splitOn ".").reverse with
  | ext :: before => if before.all (· == "") && before.length ≤ 1 then none else some ext
  | [] => none

/-- The extension of the file that a path leads to; a step that stays where it is does
    not count. -/
def pathExtension? (path : String) : Option String := do
  let name ← ((pathSteps path).filter (· != ".")).getLast?
  if name = ".." then none else nameExtension? name

/-! ## Directories -/

/-- The files of a directory, by name. -/
structure Directory where
  files : List (String × List UInt8)

/-- A directory that a path may go through. -/
inductive Place where
  /-- The directory whose files are known. -/
  | inside
  /-- One around it, of which nothing is known but that it is there. -/
  | outside

/-- What a path leads to. -/
inductive Target where
  | directory
  /-- The name `name` in a place; `slash` says that a slash follows it. -/
  | entry (place : Place) (name : String) (slash : Bool)

namespace Directory

/-- The longest path, in bytes. -/
def maxPath : Nat := 4095

/-- The longest name of a file, in bytes. -/
def maxName : Nat := 255

/-- Goes on from a place by a step that is not the last: it has to lead to a directory. -/
def enter (d : Directory) (place : Place) (step : String) : Except FileError Place :=
  if step = "." then .ok place
  else if step = ".." then .ok .outside
  else if maxName < step.utf8ByteSize then .error .nameTooLong
  else
    match place, d.files.lookup step with
    | .inside, some _ => .error .notDirectory
    | _, _ => .error .notFound

/-- What a path leads to.  A path that starts with a slash starts outside. -/
def locate (d : Directory) (path : String) : Except FileError Target :=
  if path.any (· == Char.ofNat 0) then .error .zeroByte
  else if maxPath < path.utf8ByteSize then .error .nameTooLong
  else if path = "" then .error .notFound
  else do
    let steps := pathSteps path
    let start := if path.startsWith "/" then .outside else .inside
    let place ← steps.dropLast.foldlM d.enter start
    match steps.getLast? with
    | none => return .directory
    | some last =>
      if last = "." ∨ last = ".." then return .directory
      else return .entry place last (path.endsWith "/")

/-- The bytes of a file. -/
def read (d : Directory) (path : String) : Except FileError (List UInt8) := do
  match ← d.locate path with
  | .directory => .error .isDirectory
  | .entry place name slash =>
    if maxName < name.utf8ByteSize then .error .nameTooLong
    else
      match place, d.files.lookup name with
      | .inside, some bytes => if slash then .error .notDirectory else .ok bytes
      | _, _ => .error .notFound

/-- The files with `bytes` as the content of `name`. -/
def setFile (name : String) (bytes : List UInt8) :
    List (String × List UInt8) → List (String × List UInt8)
  | [] => [(name, bytes)]
  | (other, content) :: files =>
    if other = name then (name, bytes) :: files else (other, content) :: setFile name bytes files

/-- The directory after a file has been written.  A slash behind a name asks for a
    directory, whether or not there is a file of that name; what is written outside is
    not kept. -/
def write (d : Directory) (path : String) (bytes : List UInt8) : Except FileError Directory := do
  match ← d.locate path with
  | .directory => .error .isDirectory
  | .entry place name slash =>
    if slash then .error .isDirectory
    else if maxName < name.utf8ByteSize then .error .nameTooLong
    else
      match place with
      | .inside => .ok ⟨setFile name bytes d.files⟩
      | .outside => .ok d

end Directory

/-- Work on the files of a directory. -/
abbrev InDirectory := StateM Directory

instance : Files InDirectory where
  read path := do
    return (← get).read path
  write path bytes := do
    match (← get).write path bytes with
    | .ok d =>
      set d
      return .ok ()
    | .error e => return .error e

end ImpCompiler
