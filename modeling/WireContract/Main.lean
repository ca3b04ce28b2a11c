import WireContract.Command.Run

/-!
# The program

The command line on real files. Nothing is decided here: the operations on files are handed to
`Command.run`, its outcome is printed, and its status ends the process.
-/

namespace WireContract.Command

/-- The number of a failure, which some operations give with the sign turned. -/
def failureNumber (code : UInt32) : UInt32 := min code (0 - code)

/-- A failure of the system in the words of this program. -/
def SystemError.ofIO : IO.Error → SystemError
  | .noFileOrDirectory _ _ _ => .notFound
  | .alreadyExists _ _ _ => .alreadyThere
  | e@(.inappropriateType _ code _) =>
    if failureNumber code = 20 then .notDirectory
    else if failureNumber code = 21 then .isDirectory
    else .other (toString e)
  | e@(.invalidArgument _ code _) =>
    if failureNumber code = 36 then .nameTooLong else .other (toString e)
  | e => .other (toString e)

/-- The result of an operation on a path, its failure as data. -/
def guarded {α : Type} (path : String) (operation : IO α) : IO (Except SystemError α) := do
  if path.toList.contains '\x00' then return .error .zeroInPath
  match ← operation.toBaseIO with
  | .ok a => return .ok a
  | .error e => return .error (.ofIO e)

/-- A path as the system takes it. -/
def entry (path : String) : IO.FS.DirEntry := { root := path, fileName := "" }

/-- What stands at a path. -/
def fileKind (path : String) : IO (Option FileKind) := do
  match ← guarded path (entry path).root.metadata with
  | .error _ => return none
  | .ok data =>
    match data.type with
    | .dir => return some .directory
    | _ => return some .file

/-- A failure on a path where a directory stands is told apart from others. -/
def notOnDirectory {α : Type} (path : String) (operation : IO α) :
    IO (Except SystemError α) := do
  match ← fileKind path with
  | some .directory => return .error .isDirectory
  | _ => guarded path operation

/-- The operations on real files. -/
def systemFiles : Files IO where
  kind := fileKind
  read path := notOnDirectory path do
    let bytes ← IO.FS.readBinFile path
    return bytes.toList
  names path := guarded path do
    let entries ← (entry path).root.readDir
    return (entries.map (·.fileName)).toList
  makeDirectory path := guarded path (IO.FS.createDir path)
  write path text := notOnDirectory path (IO.FS.writeFile path text)

end WireContract.Command

/-- Run the command line and print what it leaves. -/
def main (words : List String) : IO UInt32 := do
  let outcome ← WireContract.Command.run WireContract.Command.systemFiles words
  IO.print outcome.output
  IO.eprint outcome.notice
  return outcome.status.toUInt32
