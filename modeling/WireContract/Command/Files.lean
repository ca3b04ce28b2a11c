/-!
# Files

What the command line asks of a file system, as operations in any monad. Paths are texts, relative
to the directory the command runs in; what an operation answers is data, so that the same command
runs on real files and on a tree of files held as a value.
-/

namespace WireContract.Command

/-- What stands at a path. -/
inductive FileKind where
  | file
  | directory
  deriving DecidableEq, Repr

/-- Why the system refuses. -/
inductive SystemError where
  | notFound
  | alreadyThere
  | notDirectory
  | isDirectory
  | nameTooLong
  /-- A path holds the character that ends paths. -/
  | zeroInPath
  /-- A file that was to hold text does not. -/
  | notText
  | other (message : String)
  deriving DecidableEq, Repr

/-- The system's words. -/
def SystemError.message : SystemError → String
  | .notFound => "No such file or directory (os error 2)"
  | .alreadyThere => "File exists (os error 17)"
  | .notDirectory => "Not a directory (os error 20)"
  | .isDirectory => "Is a directory (os error 21)"
  | .nameTooLong => "File name too long (os error 36)"
  | .zeroInPath => "file name contained an unexpected NUL byte"
  | .notText => "stream did not contain valid UTF-8"
  | .other message => message

/-- The operations on files. -/
structure Files (m : Type → Type) where
  kind : String → m (Option FileKind)
  read : String → m (Except SystemError (List UInt8))
  /-- The names in a directory, in any order. -/
  names : String → m (Except SystemError (List String))
  /-- Make one directory; those above it must be there. -/
  makeDirectory : String → m (Except SystemError Unit)
  /-- Make a file with a text, or give a file another text. -/
  write : String → String → m (Except SystemError Unit)

namespace Files

variable {m : Type → Type} [Monad m]

/-- Whether a path leads to a directory. -/
def isDirectory (files : Files m) (path : String) : m Bool := do
  return (← files.kind path) == some .directory

/-- The text of a file. -/
def readText (files : Files m) (path : String) : m (Except SystemError String) := do
  match ← files.read path with
  | .error e => return .error e
  | .ok bytes =>
    match String.fromUTF8? ⟨bytes.toArray⟩ with
    | some text => return .ok text
    | none => return .error .notText

end Files

end WireContract.Command
