import WireContract.Manifest.Record

/-!
# Reading manifests

The records a manifest is made of, and `Manifest.read`, which reads one from a text. What follows
the manifest in the text is not looked at.

A type declaration is a record whose fields depend on its kind. The kind is a member like the
others, read where it stands; the rest is read as a whole and interpreted when the kind is known.
-/

namespace WireContract.Manifest

open Json (Document)

/-! ## 1. Options, parameters, fields, methods -/

/-- The options for client code. -/
def optionsRecord : Record Bindings.Options where
  title := "struct GenOptions"
  blank := {}
  fields :=
    [ .of "preamble" false Part.text fun a o => { o with preamble := a },
      .of "dispatch" false Part.text fun a o => { o with dispatch := a },
      .of "result_type" false Part.text fun a o => { o with resultType := a },
      .of "indent" false (Part.natural 64 "usize") fun a o => { o with indent := a } ]

/-- A field of a struct. -/
def fieldRecord : Record FieldDecl where
  title := "struct FieldDecl"
  blank := { name := "", ty := default }
  fields :=
    [ .of "name" true Part.text fun a f => { f with name := a },
      .of "type" true Part.form fun a f => { f with ty := a },
      .of "optional" false Part.flag fun a f => { f with optional := a },
      .of "default" false Part.json fun a f => { f with default := some a } ]

/-- A parameter of a method. -/
def paramRecord : Record ParamDecl where
  title := "struct ParamDecl"
  blank := { name := "", ty := default }
  fields :=
    [ .of "name" true Part.text fun a p => { p with name := a },
      .of "type" true Part.form fun a p => { p with ty := a },
      .of "default" false Part.json fun a p => { p with default := some a } ]

/-- A method. -/
def methodRecord : Record MethodDecl where
  title := "struct MethodDecl"
  blank := { name := "", returns := default }
  fields :=
    [ .of "name" true Part.text fun a m => { m with name := a },
      .of "doc" false (Part.optional Part.text) fun a m => { m with doc := a },
      .of "params" false (Part.list paramRecord.read) fun a m => { m with params := a },
      .of "returns" true Part.form fun a m => { m with returns := a },
      .of "rate_limit" false (Part.natural 32 "u32") fun a m => { m with rateLimit := a } ]

/-! ## 2. Type declarations -/

/-- The kinds of type declarations. -/
inductive Kind where
  | struct
  | enumeration
  | alias
  deriving DecidableEq, Repr

/-- The kinds by their names. -/
def Kind.names : List (String × Kind) :=
  [("struct", .struct), ("enum", .enumeration), ("alias", .alias)]

/-- A kind. -/
def Part.kind (p : Part) : Except Mishap Kind :=
  match p.document with
  | .scalar (.string s) stop =>
    match Kind.names.lookup s with
    | some kind => .ok kind
    | none => .error (p.refuse (.unknownKind s (Kind.names.map (·.1))) stop)
  | _ => .error (p.unexpected "variant identifier")

/-- What a struct declares. -/
def structRecord : Record (Option String × List String × List FieldDecl) where
  title := "struct variant TypeDecl::Struct"
  blank := (none, [], [])
  fields :=
    [ .of "doc" false (Part.optional Part.text) fun a d => (a, d.2),
      .of "generics" false (Part.list Part.text) fun a d => (d.1, a, d.2.2),
      .of "fields" false (Part.list fieldRecord.read) fun a d => (d.1, d.2.1, a) ]
  lenient := true

/-- What an enum declares. -/
def enumRecord : Record (Option String × Entries Json) where
  title := "struct variant TypeDecl::Enum"
  blank := (none, [])
  fields :=
    [ .of "doc" false (Part.optional Part.text) fun a d => (a, d.2),
      .of "members" true (Part.entries Part.json) fun a d => (d.1, a) ]
  lenient := true

/-- What an alias declares. -/
def aliasRecord : Record (List String × TypeForm) where
  title := "struct variant TypeDecl::Alias"
  blank := ([], default)
  fields :=
    [ .of "generics" false (Part.list Part.text) fun a d => (a, d.2),
      .of "type" true Part.form fun a d => (d.1, a) ]
  lenient := true

/-- A declaration of a kind. -/
def Kind.read (p : Part) : Kind → Except Mishap TypeDecl
  | .struct => (structRecord.read p).map fun (doc, generics, fields) => .struct doc generics fields
  | .enumeration => (enumRecord.read p).map fun (doc, members) => .enumeration doc members
  | .alias => (aliasRecord.read p).map fun (generics, ty) => .alias generics ty

/-- The key of the kind. -/
def kindKey : String := "kind"

/-- The kind of a declaration and its other members, behind those already read. -/
def readKind (p : Part) (kind : Option Kind) (others : List (String × Nat × Document)) :
    List (String × Nat × Document) →
    Except Mishap (Option Kind × List (String × Nat × Document))
  | [] => .ok (kind, others.reverse)
  | (key, afterKey, d) :: rest =>
    let member := p.inner (.member key) d
    if key = kindKey then
      if kind.isSome then
        .error (p.refuse (.duplicateField kindKey) (closeObject p.source afterKey))
      else
        match member.kind with
        | .error m => .error m
        | .ok kind => readKind p (some kind) others rest
    else
      match member.sound with
      | .error m => .error m
      | .ok () => readKind p kind ((key, afterKey, d) :: others) rest

/-- A type declaration. As an array it starts with the kind. -/
def Part.typeDecl (p : Part) : Except Mishap TypeDecl :=
  let noKind : Mishap := p.refuse (.missingField kindKey) p.document.stop
  match p.document with
  | .object start members ending => do
    let (kind, others) ← readKind p none [] members
    if let .broken fault := ending then
      throw (Part.noJson (p.path ++ [.somewhere]) fault)
    match kind with
    | none => throw noKind
    | some kind => kind.read { p.asWhole with document := .object start others ending }
  | .array _ [] (.broken fault) => .error (Part.noJson p.path fault)
  | .array _ [] _ => .error noKind
  | .array start (first :: rest) ending => do
    let kind ← (p.inner (.item 0) first).kind
    match Document.itemsFault? p.path 1 rest <|> Document.endFault? ending p.path with
    | some (path, fault) => throw (Part.noJson path fault)
    | none => kind.read { p.asWhole with document := .array start rest ending }
  | _ => .error (p.unexpected "internally tagged enum TypeDecl")

/-! ## 3. Manifests -/

/-- A manifest. -/
def manifestRecord : Record Manifest where
  title := "struct Manifest"
  blank := {}
  fields :=
    [ .of "options" false (Part.optional optionsRecord.read) fun a m => { m with options := a },
      .of "types" false (Part.entries Part.typeDecl) fun a m => { m with types := a },
      .of "methods" false (Part.list methodRecord.read) fun a m => { m with methods := a } ]

/-- The manifest that a text starts with. -/
def read (text : List UInt8) : Except TextFault Manifest :=
  match manifestRecord.read (.ofText text) with
  | .ok m => .ok m
  | .error mishap => .error (mishap.inText text)

end WireContract.Manifest
