import WireContract.Manifest.Part

/-!
# Records in a manifest

A record is a part with a fixed list of fields. It is written as an object, whose members come in
any order and each at most once, or as an array of the fields in their order, from which fields
that are not required may be missing at the end.

`Record.read` starts from a blank value and lets each field that is written change it. A required
field that is not written is a mishap, so whatever the blank holds in its place is never seen.
-/

namespace WireContract.Manifest

open Json (Document)

/-- A field of a record that is read into a `β`. -/
structure RecordField (β : Type) where
  name : String
  required : Bool := false
  read : Part → β → Except Mishap β

/-- A field whose value is read by `read` and stored by `store`. -/
def RecordField.of {α β : Type} (name : String) (required : Bool)
    (read : Part → Except Mishap α) (store : α → β → β) : RecordField β :=
  ⟨name, required, fun p b => (read p).map fun a => store a b⟩

/-- A record. -/
structure Record (β : Type) where
  title : String
  blank : β
  fields : List (RecordField β)
  /-- Whether members with other keys are passed over. -/
  lenient : Bool := false

namespace Record

variable {β : Type}

/-- The names of the fields, in order. -/
def names (r : Record β) : List String := r.fields.map (·.name)

/-- The field of a name. -/
def field? (r : Record β) (name : String) : Option (RecordField β) :=
  r.fields.find? fun f => f.name == name

/-- The first required field that is not among `seen`. -/
def missing? (r : Record β) (seen : List String) : Option String :=
  (r.fields.find? fun f => f.required && !seen.contains f.name).map (·.name)

/-- The members of an object, behind those of the names `seen`. -/
def readMembers (r : Record β) (p : Part) (seen : List String) (b : β) :
    List (String × Nat × Document) → Except Mishap (List String × β)
  | [] => .ok (seen, b)
  | (key, afterKey, d) :: rest =>
    let member := p.inner (.member key) d
    let mishap (host : Part) (cause : Cause) : Mishap :=
      host.refuse cause (closeObject p.source afterKey)
    match r.field? key with
    | none =>
      if r.lenient then readMembers r p seen b rest
      else .error (mishap member (.unknownField key r.names))
    | some f =>
      if seen.contains key then .error (mishap p (.duplicateField key))
      else
        match p.placeMember (f.read member b) with
        | .error m => .error m
        | .ok b => readMembers r p (key :: seen) b rest

/-- The record as an object. -/
def readObject (r : Record β) (p : Part) (members : List (String × Nat × Document))
    (ending : Json.Ending) : Except Mishap β := do
  let (seen, b) ← r.readMembers p [] r.blank members
  match ending with
  | .broken fault => throw (Part.noJson (p.path ++ [.somewhere]) fault)
  | _ =>
    match r.missing? seen with
    | some name => throw (p.refuse (.missingField name) p.document.stop)
    | none => return b

/-- The words for the right number of fields. -/
def lengthText (r : Record β) : String :=
  r.title ++ " with " ++ toString r.fields.length ++ " elements"

/-- The words for a number of items that is too great. -/
def countText (n : Nat) : String :=
  if n = 1 then "1 element in sequence" else toString n ++ " elements in sequence"

/-- The items of an array, from the field number `index` on; `behind` is the offset behind the
    item in front. -/
def readItems (r : Record β) (p : Part) (ending : Json.Ending) :
    List (RecordField β) → Nat → Nat → β → List Document → Except Mishap β
  | [], index, behind, b, rest =>
    match p.whole with
    | some _ =>
      if rest.isEmpty then .ok b
      else .error (p.refuse (.wrongLength (index + rest.length) (countText index)) 0)
    | none =>
      match endOfArray? p.source behind with
      | some fault => .error (Part.noJson p.path fault)
      | none => .ok b
  | f :: fields, index, _, b, d :: rest =>
    match p.placeItem (f.read (p.inner (.item index) d) b) with
    | .error m => .error m
    | .ok b => readItems r p ending fields (index + 1) d.stop b rest
  | f :: fields, index, _, b, [] =>
    match ending with
    | .broken fault => .error (Part.noJson p.path fault)
    | _ =>
      match (f :: fields).findIdx? (·.required) with
      | some j => .error (p.refuse (.wrongLength (index + j) r.lengthText) p.document.stop)
      | none => .ok b

/-- The record in either form. -/
def read (r : Record β) (p : Part) : Except Mishap β :=
  match p.document with
  | .object _ members ending => r.readObject p members ending
  | .array start items ending => r.readItems p ending r.fields 0 (start + 1) r.blank items
  | _ => .error (p.unexpected r.title)

end Record

end WireContract.Manifest
