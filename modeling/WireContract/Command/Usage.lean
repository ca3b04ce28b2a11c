/-!
# The command line

There are two commands. `generate` writes client code, `check` only looks whether it could be
written. A word with a dash in front is an option (a single dash is not); an option for one value
takes the next word, the option for inputs all words up to the next option. A value may also be
attached: behind an equals sign, or behind the letter of a short option. What is not understood
makes the whole line unusable; but a line that asks for help gets it as soon as it is read so far,
whatever follows. Help is also had by a command of its own.
-/

namespace WireContract.Command

/-! ## 1. Commands -/

/-- What the options for client code are set to instead. -/
structure Overrides where
  /-- The file that holds the preamble. -/
  preamble : Option String := none
  dispatch : Option String := none
  resultType : Option String := none
  indent : Option Nat := none
  deriving DecidableEq, Repr

/-- The settings of `generate`. -/
structure Generation where
  inputs : List String := []
  overrides : Overrides := {}
  /-- The file to write; the standard output if there is none. -/
  out : Option String := none
  /-- Whether nothing is to be done. -/
  idle : Bool := false
  deriving DecidableEq, Repr

/-- A command. -/
inductive Invocation where
  | generate (settings : Generation)
  | check (inputs : List String)
  | help
  deriving DecidableEq, Repr

/-! ## 2. Words -/

/-- What a word of the command line looks like. -/
inductive Word where
  /-- The two dashes behind which there are no more options. -/
  | ending
  | long (name : List Char) (value : Option (List Char))
  | short (letter : Char) (value : Option (List Char))
  | plain
  deriving DecidableEq, Repr

/-- The name of a long option and the value attached to it. -/
def cutValue : List Char → List Char × Option (List Char)
  | [] => ([], none)
  | c :: rest =>
    if c = '=' then ([], some rest)
    else
      let (name, value) := cutValue rest
      (c :: name, value)

/-- The value attached to a short option; an equals sign in front does not belong to it. -/
def attached : List Char → Option (List Char)
  | [] => none
  | '=' :: rest => some rest
  | value => some value

/-- What a word looks like. -/
def Word.ofChars : List Char → Word
  | ['-', '-'] => .ending
  | '-' :: '-' :: rest => .long (cutValue rest).1 (cutValue rest).2
  | '-' :: letter :: rest => .short letter (attached rest)
  | _ => .plain

/-! ## 3. Options -/

/-- An option. -/
inductive Flag where
  | input
  | preamble
  | dispatch
  | resultType
  | indent
  | out
  | idle
  | help
  deriving DecidableEq, Repr

/-- The long options of `generate`. -/
def generateFlags : List (String × Flag) :=
  [("input", .input), ("preamble", .preamble), ("dispatch", .dispatch),
   ("result-type", .resultType), ("indent", .indent), ("out", .out), ("no-op", .idle),
   ("help", .help)]

/-- The short options of `generate`. -/
def generateLetters : List (Char × Flag) := [('i', .input), ('o', .out), ('h', .help)]

/-- The long options of `check`. -/
def checkFlags : List (String × Flag) := [("input", .input), ("help", .help)]

/-- The short options of `check`. -/
def checkLetters : List (Char × Flag) := [('i', .input), ('h', .help)]

/-- A natural number of 64 bits in decimal digits, perhaps with a plus sign in front. -/
def natural? (text : String) : Option Nat :=
  let digits :=
    match text.toList with
    | '+' :: rest => rest
    | cs => cs
  if digits.isEmpty || !digits.all Char.isDigit then none
  else
    let n := digits.foldl (fun n c => 10 * n + (c.toNat - '0'.toNat)) 0
    if n < Nat.pow 2 64 then some n else none

/-- A value that is given for the first time. -/
def once {α : Type} (present : Option α) (value : α) : Option α :=
  if present.isSome then none else some value

/-- The name of a file that is given for the first time; it must not be empty. -/
def oncePath (present : Option String) (value : String) : Option String :=
  if value.isEmpty then none else once present value

/-- Take up an option with a value. Only inputs can be given more than once. -/
def Generation.put (g : Generation) (value : String) : Flag → Option Generation
  | .input => some { g with inputs := g.inputs ++ [value] }
  | .preamble =>
    (oncePath g.overrides.preamble value).map fun v =>
      { g with overrides := { g.overrides with preamble := some v } }
  | .dispatch =>
    (once g.overrides.dispatch value).map fun v =>
      { g with overrides := { g.overrides with dispatch := some v } }
  | .resultType =>
    (once g.overrides.resultType value).map fun v =>
      { g with overrides := { g.overrides with resultType := some v } }
  | .indent =>
    (natural? value).bind fun n =>
      (once g.overrides.indent n).map fun v =>
        { g with overrides := { g.overrides with indent := some v } }
  | .out => (oncePath g.out value).map fun v => { g with out := some v }
  | .idle => none
  | .help => none

/-! ## 4. Lines -/

/-- What the next word may be. -/
inductive Expecting where
  /-- An option. -/
  | option
  /-- The value of an option, which is missing yet. -/
  | value (flag : Flag)
  /-- One more input, or an option. -/
  | moreInputs
  deriving DecidableEq, Repr

/-- What comes behind the value of an option. -/
def Expecting.after : Flag → Expecting
  | .input => .moreInputs
  | _ => .option

/-- Whether an option may stand here, or the line end. -/
def Expecting.isOpen : Expecting → Bool
  | .value _ => false
  | _ => true

/-- Take up an option with the value attached to it, if there is one. -/
def Generation.start (g : Generation) (flag : Flag) (value : Option (List Char)) :
    Option (Generation × Expecting) :=
  match flag, value with
  | .idle, none => if g.idle then none else some ({ g with idle := true }, .option)
  | .idle, some _ => none
  | .help, _ => none
  | flag, none => some (g, .value flag)
  | flag, some value => (g.put (String.ofList value) flag).map fun g => (g, .option)

/-- What the words behind a command ask for. -/
inductive Request where
  | help
  | settings (g : Generation)
  deriving DecidableEq, Repr

/-- The words behind the command. Nothing can be attached to the long option for help; behind its
    letter nothing is read. -/
def readWords (flags : List (String × Flag)) (letters : List (Char × Flag)) (g : Generation) :
    Expecting → List String → Option Request
  | e, [] => if e.isOpen then some (.settings g) else none
  | e, word :: rest =>
    let enter (flag : Option Flag) (value : Option (List Char)) : Option Request :=
      if !e.isOpen then none
      else
        match flag, value with
        | none, _ => none
        | some .help, none => some .help
        | some flag, value =>
          match g.start flag value with
          | none => none
          | some (g, e) => readWords flags letters g e rest
    match Word.ofChars word.toList with
    | .ending => if e.isOpen && rest.isEmpty then some (.settings g) else none
    | .long name value => enter (flags.lookup (String.ofList name)) value
    | .short letter value =>
      match letters.lookup letter with
      | some .help => enter (some .help) none
      | flag => enter flag value
    | .plain =>
      match e with
      | .option => none
      | .value flag =>
        match g.put word flag with
        | none => none
        | some g => readWords flags letters g (.after flag) rest
      | .moreInputs => readWords flags letters { g with inputs := g.inputs ++ [word] } e rest

/-- The command that a request makes of settings, which must have an input. -/
def Request.toInvocation (command : Generation → Invocation) : Request → Option Invocation
  | .help => some .help
  | .settings g => if g.inputs.isEmpty then none else some (command g)

/-- The names of the commands. -/
def commandNames : List String := ["generate", "check", "help"]

/-- Whether a word in place of a command asks for help. -/
def Word.asksForHelp : Word → Bool
  | .long name none => String.ofList name == "help"
  | .short letter _ => letter == 'h'
  | _ => false

/-- The command that a line gives, if it gives one. -/
def Invocation.ofWords : List String → Option Invocation
  | [] => none
  | "generate" :: rest =>
    (readWords generateFlags generateLetters {} .option rest).bind (·.toInvocation .generate)
  | "check" :: rest =>
    (readWords checkFlags checkLetters {} .option rest).bind
      (·.toInvocation fun g => .check g.inputs)
  | "help" :: topic =>
    if topic.isEmpty || topic.length == 1 && topic.all commandNames.contains then some .help
    else none
  | word :: _ => if (Word.ofChars word.toList).asksForHelp then some .help else none

end WireContract.Command
