import WireContract.Json.Reader
import WireContract.Manifest.Fault
import WireContract.Manifest.TypeForm

/-!
# Parts of a manifest's text

A part is a document with the way to it. Most parts are read one by one, from the front of the
text, so that the first thing wrong is the one reported. Two kinds are read as a whole before they
get a meaning: type declarations and written types. A fault of JSON inside such a whole still has
its own path and place; a fault of meaning has the path of the whole.

The place of a fault of meaning follows one rule. A value of the wrong kind is reported behind
itself, in front of itself when it is an array or object. Everything else is reported by the
innermost array or object that is being read: its rest is skipped as far as white space and its
closing bracket (in an array also one comma) go, and the place is there. So a fault may still
have to be placed (`Mishap.placed`) when it leaves the part it was found in.

* `Part.text`, `Part.flag`, `Part.natural`, `Part.json`, `Part.form`: parts without parts;
* `Part.optional`, `Part.list`, `Part.entries`: parts with parts.
-/

namespace WireContract.Manifest

open Json (Document Cursor)

/-! ## 1. Mishaps -/

/-- A fault of meaning or of JSON, its place not yet in lines and columns. -/
structure Mishap where
  path : Document.Path
  cause : Cause
  offset : Nat
  /-- Whether `offset` is the place, or where the enclosing array or object goes on from. -/
  placed : Bool := true
  deriving Repr

/-- Place a mishap that is not placed yet. -/
def Mishap.place (close : Nat → Nat) (m : Mishap) : Mishap :=
  if m.placed then m else { m with offset := close m.offset, placed := true }

/-- The mishap as a fault of that text. -/
def Mishap.inText (m : Mishap) (text : List UInt8) : TextFault :=
  ⟨m.path, m.cause, .behind text m.offset⟩

/-- Where an object that gives up at an offset ends: behind its brace, if that comes next. -/
def closeObject (text : List UInt8) (offset : Nat) : Nat :=
  let c := ((Cursor.start text).advance offset).skipSpace
  if c.rest.head? = some (Json.byte '\x7d') then c.offset + 1 else c.offset

/-- Where an array that gives up at an offset ends: behind its bracket, if that comes next, else
    behind a comma and white space. -/
def closeArray (text : List UInt8) (offset : Nat) : Nat :=
  let c := ((Cursor.start text).advance offset).skipSpace
  if c.rest.head? = some (Json.byte ']') then c.offset + 1
  else if c.rest.head? = some (Json.byte ',') then (c.advance 1).skipSpace.offset
  else c.offset

/-- What is wrong with the end of an array whose reader wants nothing more, seen from behind its
    last item; nothing if its bracket comes next. -/
def endOfArray? (text : List UInt8) (offset : Nat) : Option Json.Fault :=
  let c := ((Cursor.start text).advance offset).skipSpace
  match c.rest with
  | [] => some (c.peekFault .endInList)
  | b :: _ =>
    if b = Json.byte ']' then none
    else if b = Json.byte ',' then
      let c := (c.advance 1).skipSpace
      if c.rest.head? = some (Json.byte ']') then some (c.peekFault .trailingComma)
      else some (c.peekFault .trailingCharacters)
    else some (c.peekFault .trailingCharacters)

/-! ## 2. Parts -/

/-- A document with its way. -/
structure Part where
  source : List UInt8
  path : Document.Path
  document : Document
  /-- For what belongs to a part read as a whole: the offset behind that part. -/
  whole : Option Nat := none

namespace Part

/-- The whole manifest. -/
def ofText (source : List UInt8) : Part :=
  { source, path := [], document := Json.readDocument source }

/-- A part of a part; within a part read as a whole the path goes no further. -/
def inner (p : Part) (step : Document.Step) (document : Document) : Part :=
  { p with document, path := if p.whole.isSome then p.path else p.path ++ [step] }

/-- The part as one that is read as a whole, or as part of the whole that it belongs to. -/
def asWhole (p : Part) : Part := { p with whole := p.whole <|> some p.document.stop }

/-- A fault of meaning that has its place at `offset`, unless a whole is waiting for one. -/
def refuse (p : Part) (cause : Cause) (offset : Nat) : Mishap :=
  match p.whole with
  | none => ⟨p.path, cause, offset, true⟩
  | some stop => ⟨p.path, cause, stop, false⟩

/-- A fault of JSON at a path. -/
def noJson (path : Document.Path) (fault : Json.Fault) : Mishap :=
  ⟨path, .noJson fault.cause, fault.offset, true⟩

/-- The mishap of a part that is not of the kind that is wanted. -/
def unexpected (p : Part) (expected : String) : Mishap :=
  match p.document with
  | .broken fault => noJson p.path fault
  | .unreached fault => noJson p.path.dropLast fault
  | .array start _ _ => p.refuse (.wrongType .sequence expected) start
  | .object start _ _ => p.refuse (.wrongType .map expected) start
  | .scalar s stop => p.refuse (.wrongType (.ofDocument (.scalar s stop)) expected) stop

/-- Nothing, if a part is free of faults of JSON. -/
def sound (p : Part) : Except Mishap Unit :=
  match p.document.fault? p.path with
  | some (path, fault) => .error (noJson path fault)
  | none => .ok ()

/-! ## 3. Parts without parts -/

/-- A string. -/
def text (p : Part) : Except Mishap String :=
  match p.document with
  | .scalar (.string s) _ => .ok s
  | _ => .error (p.unexpected "a string")

/-- A truth value. -/
def flag (p : Part) : Except Mishap Bool :=
  match p.document with
  | .scalar (.bool b) _ => .ok b
  | _ => .error (p.unexpected "a boolean")

/-- A natural of so many bits; `expected` is what they are called. -/
def natural (bits : Nat) (expected : String) (p : Part) : Except Mishap Nat :=
  match p.document with
  | .scalar (.number (.integer i)) stop =>
    if 0 ≤ i ∧ i.toNat < Nat.pow 2 bits then .ok i.toNat
    else .error (p.refuse (.wrongValue (.number (.integer i)) expected) stop)
  | _ => .error (p.unexpected expected)

/-- Any value. -/
def json (p : Part) : Except Mishap Json := do
  p.sound
  return p.document.value

/-- A written type. It is read as a whole. -/
def form (p : Part) : Except Mishap TypeForm := do
  p.sound
  match TypeForm.ofDocument p.document with
  | some form => return form
  | none => throw (p.asWhole.refuse .noTypeForm 0)

/-! ## 4. Parts with parts -/

/-- Null, or what `read` reads. -/
def optional {α : Type} (read : Part → Except Mishap α) (p : Part) : Except Mishap (Option α) :=
  match p.document with
  | .scalar .null _ => .ok none
  | _ => (read p).map some

/-- Place the mishaps of an item of an array. -/
def placeItem {α : Type} (p : Part) : Except Mishap α → Except Mishap α
  | .ok a => .ok a
  | .error m => .error (if p.whole.isSome then m else m.place (closeArray p.source))

/-- Place the mishaps of a member of an object. -/
def placeMember {α : Type} (p : Part) : Except Mishap α → Except Mishap α
  | .ok a => .ok a
  | .error m => .error (if p.whole.isSome then m else m.place (closeObject p.source))

/-- The items of an array, counted from `index`. -/
def listFrom {α : Type} (p : Part) (read : Part → Except Mishap α) (index : Nat) :
    List Document → Except Mishap (List α)
  | [] => .ok []
  | d :: rest => do
    let a ← p.placeItem (read (p.inner (.item index) d))
    let as ← listFrom p read (index + 1) rest
    return a :: as

/-- An array of what `read` reads. -/
def list {α : Type} (read : Part → Except Mishap α) (p : Part) : Except Mishap (List α) :=
  match p.document with
  | .array _ items ending => do
    let as ← listFrom p read 0 items
    match ending with
    | .broken fault => throw (noJson p.path fault)
    | _ => return as
  | _ => .error (p.unexpected "a sequence")

/-- The members of an object, behind those already read. -/
def entriesFrom {α : Type} (p : Part) (read : Part → Except Mishap α) (done : Entries α) :
    List (String × Nat × Document) → Except Mishap (Entries α)
  | [] => .ok done
  | (key, _, d) :: rest => do
    let a ← p.placeMember (read (p.inner (.member key) d))
    entriesFrom p read (done.put key a) rest

/-- An object whose values `read` reads, with any keys; a repeated key takes its last value. -/
def entries {α : Type} (read : Part → Except Mishap α) (p : Part) : Except Mishap (Entries α) :=
  match p.document with
  | .object _ members ending => do
    let es ← entriesFrom p read [] members
    match ending with
    | .broken fault => throw (noJson (p.path ++ [.somewhere]) fault)
    | _ => return es
  | _ => .error (p.unexpected "a map")

end Part

end WireContract.Manifest
