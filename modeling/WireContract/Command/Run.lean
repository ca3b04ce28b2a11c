import WireContract.Bindings.Generate
import WireContract.Command.Inputs
import WireContract.Command.Usage
import WireContract.Manifest.Load

/-!
# Running a command

A command loads its inputs in order, merges them, and writes client code or a summary. Whatever can
fail comes before the first thing that is written, so a command that fails leaves the files as
they were, save for directories made for the output file.

* `run`: a command on a file system, in any monad;
* `Outcome`: what is left to print, and how the command ends.
-/

namespace WireContract.Command

/-- Why a command fails. -/
inductive Fault where
  | inputs (fault : InputFault)
  | manifestUnreadable (path : String) (error : SystemError)
  | manifestText (path : String) (fault : Manifest.TextFault)
  | manifest (fault : Manifest.Fault)
  | preamble (path : String) (error : SystemError)
  | schema (fault : SchemaFault)
  /-- One level of indentation is longer than any text can be. The command does not report this as
      its fault: the program ends where it happens. -/
  | overflow
  | directory (error : SystemError)
  | output (path : String) (error : SystemError)
  deriving Repr

/-- The words for a fault. -/
def Fault.message : Fault → String
  | .inputs fault => fault.message
  | .manifestUnreadable path error =>
    "failed to load manifest " ++ path ++ ": failed to read " ++ path ++ ": " ++ error.message ++
      ": " ++ error.message
  | .manifestText path fault => "failed to load manifest " ++ path ++ ": " ++ fault.message
  | .manifest fault => fault.message
  | .preamble path error => "failed to read preamble " ++ path ++ ": " ++ error.message
  | .schema fault => fault.message
  | .overflow => Bindings.Failure.overflow.message
  | .directory error => error.message
  | .output path error => "failed to write " ++ path ++ ": " ++ error.message

/-- The fault of a command that generates no client code. -/
def Fault.ofFailure : Bindings.Failure → Fault
  | .schema fault => .schema fault
  | .overflow => .overflow

/-- The status that the process ends with at a fault. -/
def Fault.status : Fault → Nat
  | .overflow => 101
  | _ => 1

/-- What the user sees of a fault. Where the program ends by itself, it also names the place in its
    code, which is left out. -/
def Fault.report : Fault → String
  | .overflow => Fault.overflow.message ++ "\n"
  | fault => "error: " ++ fault.message ++ "\n"

/-- How a command line ends. -/
inductive Outcome where
  /-- The line is no command. -/
  | unusable
  /-- The line asks for help. -/
  | help
  /-- The command was to do nothing. -/
  | idle
  /-- What is to be printed, on the standard output and for the user to see. -/
  | done (output notice : String)
  | failed (fault : Fault)
  deriving Repr

/-- The status that the process ends with. -/
def Outcome.status : Outcome → Nat
  | .unusable => 2
  | .help => 0
  | .idle => 0
  | .done _ _ => 0
  | .failed fault => fault.status

/-- The forms of the command line. -/
def usage : String :=
  "usage: generate -i FILE... [--preamble FILE] [--dispatch TEXT] [--result-type TEXT]\n" ++
  "                [--indent N] [-o FILE] [--no-op]\n" ++
  "       check -i FILE...\n" ++
  "       help\n"

/-- The text for the standard output. -/
def Outcome.output : Outcome → String
  | .help => usage
  | .done output _ => output
  | _ => ""

/-- The text for the user to see. -/
def Outcome.notice : Outcome → String
  | .unusable => usage
  | .help => ""
  | .idle => ""
  | .done _ notice => notice
  | .failed fault => fault.report

/-! ## 1. Loading -/

section

variable {m : Type → Type} [Monad m]

/-- A result as an outcome of a step that may fail. -/
def orFail {ε α : Type} (fault : ε → Fault) : Except ε α → ExceptT Fault m α
  | .ok a => pure a
  | .error e => throw (fault e)

/-- One more manifest, read from a file and merged. -/
def loadManifest (files : Files m) (done : Manifest) (path : String) :
    ExceptT Fault m Manifest := do
  let bytes ← orFail (.manifestUnreadable path) (← files.read path)
  let next ← orFail (.manifestText path) (Manifest.read bytes)
  orFail .manifest (done.takeUp next)

/-- Manifests from files, merged one after another. -/
def loadManifests (files : Files m) (done : Manifest) :
    List String → ExceptT Fault m Manifest
  | [] => pure done
  | path :: rest => do
    let done ← loadManifest files done path
    loadManifests files done rest

/-- The registry of some inputs and the options they ask for. -/
def load (files : Files m) (inputs : List String) :
    ExceptT Fault m (Registry × Bindings.Options) := do
  let paths ← orFail .inputs (← (resolveInputs files inputs).run)
  let manifest ← loadManifests files .empty paths
  orFail .manifest manifest.toRegistry

/-- Options with what the command line sets. -/
def Overrides.apply (o : Overrides) (files : Files m) (options : Bindings.Options) :
    ExceptT Fault m Bindings.Options := do
  let preamble ←
    match o.preamble with
    | none => pure options.preamble
    | some path => orFail (.preamble path) (← files.readText path)
  return { preamble
           dispatch := o.dispatch.getD options.dispatch
           resultType := o.resultType.getD options.resultType
           indent := o.indent.getD options.indent }

/-! ## 2. Writing -/

/-- Make a directory and those above it, given by the stretches of its path, the last one first.
    One that is there already is fine. -/
def makeDirectories (files : Files m) : List String → ExceptT Fault m Unit
  | [] => pure ()
  | stretch :: above => do
    let path := String.intercalate "/" (stretch :: above).reverse
    let settle (e : SystemError) : ExceptT Fault m Unit := do
      if ← files.isDirectory path then pure () else throw (.directory e)
    match ← files.makeDirectory path with
    | .ok () => pure ()
    | .error .notFound =>
      makeDirectories files above
      match ← files.makeDirectory path with
      | .ok () => pure ()
      | .error e => settle e
    | .error e => settle e

/-- Write a file, and make the directories it needs. -/
def writeOutput (files : Files m) (path text : String) : ExceptT Fault m Unit := do
  makeDirectories files (Path.stretches (Path.steps path)).dropLast.reverse
  orFail (.output path) (← files.write path text)

/-! ## 3. Commands -/

/-- What a method needs of its caller. -/
def callerNeeds (method : Method) : List String :=
  (if method.usesSession then [if method.sessionOptional then "session?" else "session"] else []) ++
    (if method.usesCredentials then ["credentials"] else [])

/-- One line on a method whose parameters have a type of that name. -/
def summaryLine (method : Method) (params : String) : String :=
  method.name ++ " (" ++ params ++ ") [" ++ String.intercalate ", " (callerNeeds method) ++ "]" ++
    (if method.rateLimit = 0 then ""
     else " rate_limit=" ++ toString method.rateLimit ++ "s") ++ "\n"

/-- The lines on all methods. -/
def summary (types : TypeTable) : List Method → Except SchemaFault String
  | [] => .ok ""
  | method :: rest => do
    let params ← types.name method.params
    let more ← summary types rest
    return summaryLine method params ++ more

/-- Client code, on the standard output or in a file. -/
def generateBindings (files : Files m) (g : Generation) : ExceptT Fault m Outcome := do
  let (registry, options) ← load files g.inputs
  let options ← g.overrides.apply files options
  let bindings ← orFail .ofFailure (Bindings.generate registry options)
  let text := bindings.text options
  match g.out with
  | none => return .done text ""
  | some path =>
    writeOutput files path text
    return .done "" ""

/-- A summary of the methods, if client code can be written for them. -/
def checkInputs (files : Files m) (inputs : List String) : ExceptT Fault m Outcome := do
  let (registry, options) ← load files inputs
  let _ ← orFail .ofFailure (Bindings.generate registry options)
  let lines ← orFail .schema (summary registry.types registry.methods)
  return .done lines ("ok: " ++ toString registry.size ++ " method(s)\n")

/-- The outcome of a command; a fault is one. -/
def Invocation.run (files : Files m) (invocation : Invocation) : m Outcome := do
  let result : Except Fault Outcome ←
    match invocation with
    | .generate g => if g.idle then pure (.ok .idle) else (generateBindings files g).run
    | .check inputs => (checkInputs files inputs).run
    | .help => pure (.ok .help)
  match result with
  | .ok outcome => return outcome
  | .error fault => return .failed fault

/-- The outcome of a command line. -/
def run (files : Files m) (words : List String) : m Outcome :=
  match Invocation.ofWords words with
  | none => pure .unusable
  | some invocation => invocation.run files

end

end WireContract.Command
