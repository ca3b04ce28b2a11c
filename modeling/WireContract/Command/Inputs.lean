import WireContract.Command.Files
import WireContract.Command.Path
import WireContract.Command.Pattern

/-!
# Input files

An input is a path, or a pattern that stands for the files it matches, in order of their paths --
names compared step by step. A pattern is followed one step at a time: a step without wildcards is
only looked up, any other is compared with the names in the directory reached so far.

* `Glob.ofText`: a written pattern taken apart;
* `Glob.expand`: the files it stands for;
* `resolveInputs`: the files of all inputs.
-/

namespace WireContract.Command

/-- One step of a pattern. -/
inductive GlobStep where
  | fixed (name : String)
  | pattern (tokens : List Pattern.Token)
  /-- Any number of directories, one below the other. -/
  | anywhere
  deriving Repr

/-- A pattern taken apart. -/
structure Glob where
  /-- The directory where it starts. -/
  start : String
  steps : List GlobStep
  /-- Whether it stands for directories only: it ends in a slash. -/
  directoriesOnly : Bool
  deriving Repr

/-- Why inputs cannot be resolved. -/
inductive InputFault where
  | badPattern (fault : Pattern.Fault)
  | unreadable (path : String) (error : SystemError)
  | noMatch (pattern : String)
  deriving Repr

/-- The words for a fault. -/
def InputFault.message : InputFault → String
  | .badPattern fault => fault.message
  | .unreadable path error =>
    "attempting to read `" ++ path ++ "` resulted in an error: " ++ error.message
  | .noMatch pattern => "glob pattern matched no files: " ++ pattern

/-! ## 1. Written patterns -/

/-- Whether an input is a pattern. -/
def isPattern (input : String) : Bool :=
  input.toList.any fun c => c == '*' || c == '?' || c == '[' || c == '\x7b'

/-- Whether a name has the form of a step. -/
def GlobStep.accepts : GlobStep → String → Bool
  | .fixed name, other => name == other
  | .pattern tokens, other => Pattern.accepts tokens other.toList
  | .anywhere, _ => false

/-- A written step. -/
def GlobStep.ofChars (cs : List Char) : Except Pattern.Fault GlobStep := do
  let tokens ← Pattern.tokens cs
  match Pattern.fixedText? tokens with
  | some name => return .fixed (String.ofList name)
  | none => if tokens.contains .anyDirectories then return .anywhere else return .pattern tokens

/-- The steps of a path as written; a slash at the end opens no further one. -/
def writtenSteps (cs : List Char) : List (List Char) :=
  let all := Text.segments '/' cs
  if all.getLast? = some [] then all.dropLast else all

namespace Glob

/-- A written pattern. It is checked as a whole first, so that the place of a fault counts from
    its start. -/
def ofText (pattern : String) : Except Pattern.Fault Glob := do
  let cs := pattern.toList
  let _ ← Pattern.tokens cs
  let rooted := Path.isRooted pattern
  let steps ← (writtenSteps (if rooted then cs.drop 1 else cs)).mapM GlobStep.ofChars
  return { start := if rooted then "/" else ".", steps,
           directoriesOnly := cs.getLast? == some '/' }

/-! ## 2. Following a pattern -/

variable {m : Type → Type} [Monad m]

/-- What is found from several paths, one after another. -/
def forEach (find : String → ExceptT InputFault m (List String)) :
    List String → ExceptT InputFault m (List String)
  | [] => pure []
  | path :: rest => do
    let first ← find path
    let others ← forEach find rest
    return first ++ others

/-- The path itself, if it is of the kind that is wanted. -/
def found (files : Files m) (directoriesOnly : Bool) (path : String) :
    ExceptT InputFault m (List String) := do
  if directoriesOnly then
    if ← files.isDirectory path then return [path] else return []
  else return [path]

/-- The names in a directory, in order; none where there is no directory. -/
def namesIn (files : Files m) (path : String) : ExceptT InputFault m (List String) := do
  if ← files.isDirectory path then
    match ← files.names path with
    | .ok names => return names.mergeSort fun a b => decide (a ≤ b)
    | .error e => throw (.unreadable path e)
  else return []

/-- Whether a step without wildcards leads on. -/
def leadsOn (files : Files m) (path name : String) : ExceptT InputFault m Bool := do
  if name == "." || name == ".." then files.isDirectory path
  else return (← files.kind (Path.step path name)).isSome

/-- The two names of directories that no directory lists. -/
def unlisted : List Pattern.Token → List String
  | .char '.' :: rest =>
    ["..", "."].filter fun name => Pattern.accepts (.char '.' :: rest) name.toList
  | _ => []

/-- The steps behind those that stand for any directories. -/
def collapse : List GlobStep → List GlobStep
  | .anywhere :: rest => collapse rest
  | steps => steps

/-- The paths that steps lead to from a path. `fuel` bounds the steps and the depth of the
    directories. -/
def expandFrom (files : Files m) (directoriesOnly : Bool) :
    Nat → List GlobStep → String → ExceptT InputFault m (List String)
  | _, [], path => found files directoriesOnly path
  | 0, _ :: _, _ => pure []
  | fuel + 1, .fixed name :: rest, path => do
    if ← leadsOn files path name then
      expandFrom files directoriesOnly fuel rest (Path.step path name)
    else return []
  | fuel + 1, .pattern tokens :: rest, path => do
    let names ← namesIn files path
    let listed := names.filter fun name => Pattern.accepts tokens name.toList
    let special := if ← files.isDirectory path then unlisted tokens else []
    forEach (expandFrom files directoriesOnly fuel rest)
      (special.map (Path.join path) ++ listed.map (Path.step path))
  | fuel + 1, .anywhere :: rest, path => do
    let names ← namesIn files path
    let visit (name : String) : ExceptT InputFault m (List String) := do
      let inner := Path.step path name
      let directory ← files.isDirectory inner
      let own ←
        match collapse rest with
        | [] => pure (if directory then [inner] else [])
        | next :: more =>
          if next.accepts name then expandFrom files directoriesOnly fuel more inner
          else pure []
      let deeper ←
        if directory then
          expandFrom files directoriesOnly fuel (.anywhere :: collapse rest) inner
        else pure []
      return own ++ deeper
    forEach visit names

/-- The files that a pattern stands for. No more directories lie one below the other than a path
    has bytes. -/
def expand (files : Files m) (g : Glob) : ExceptT InputFault m (List String) :=
  if g.steps.isEmpty then pure []
  else expandFrom files g.directoriesOnly (Path.byteLimit + g.steps.length) g.steps g.start

end Glob

/-! ## 3. Inputs -/

variable {m : Type → Type} [Monad m]

/-- The files of an input. A path is taken as it stands; a pattern must match something. -/
def resolveInput (files : Files m) (input : String) : ExceptT InputFault m (List String) := do
  if isPattern input then
    match Glob.ofText input with
    | .error fault => throw (.badPattern fault)
    | .ok glob =>
      let paths ← glob.expand files
      if paths.isEmpty then throw (.noMatch input) else return paths
  else return [input]

/-- The files of all inputs, in the order of the inputs. -/
def resolveInputs (files : Files m) (inputs : List String) :
    ExceptT InputFault m (List String) :=
  Glob.forEach (resolveInput files) inputs

end WireContract.Command
