import WireContract.Binary64.Decimal
import WireContract.Type.Shown
import WireContract.Type.Table
import WireContract.Wire.Fault

/-!
# Checking values against types

`check` compares a value with a type and gives the value back as it is meant: struct members that
the type does not declare are dropped, and missing fields with a default are filled in. It walks
the same definitions that the generated client types are written from.

The check looks into a type at most `depthLimit` levels deep. The level counts every value that is
compared and every step from a type to one it is made of -- a union's member, an alias's body --,
so it bounds the work on cyclic aliases too. `check` is recursive on the levels LEFT and hands
itself, with one level less, to the helpers that walk lists.

* `check`: the comparison with a number of levels left;
* `checkFields`: the members of a struct, also used for the parameters of a method;
* `checkFrom`: the same, by the level it starts on.
-/

namespace WireContract.Wire

/-- How many levels a check may go down. -/
def depthLimit : Nat := 128

/-- A comparison of a value at a place with a type. -/
abbrev Checker := Ty → Json → Path → Except Fault Json

/-! ## 1. Parts of a value -/

/-- The value if the test holds, else a mismatch. -/
def accept (ok : Bool) (v : Json) (path : Path) (expected : Expected) : Except Fault Json :=
  if ok then .ok v else .error (.mismatch path expected)

/-- The first member that takes the value. A fault other than a mismatch ends the search. -/
def checkUnion (checker : Checker) : List Ty → Json → Path → Except Fault Json
  | [], _, path => .error (.mismatch path .unionMember)
  | ty :: rest, v, path =>
    match checker ty v path with
    | .ok out => .ok out
    | .error fault =>
      if fault.isMismatch then checkUnion checker rest v path else .error fault

/-- Every item against one type, from the item number `index` on. -/
def checkItems (checker : Checker) (elem : Ty) (path : Path) :
    Nat → List Json → Except Fault (List Json)
  | _, [] => .ok []
  | index, v :: rest => do
    let out ← checker elem v (path ++ [.item index])
    let outs ← checkItems checker elem path (index + 1) rest
    return out :: outs

/-- Every item against the type of its place, as far as both lists reach. -/
def checkPlaces (checker : Checker) (path : Path) :
    Nat → List Ty → List Json → Except Fault (List Json)
  | index, ty :: tys, v :: rest => do
    let out ← checker ty v (path ++ [.item index])
    let outs ← checkPlaces checker path (index + 1) tys rest
    return out :: outs
  | _, _, _ => .ok []

/-- A key of an object against the key type. Keys arrive as strings; against the type of numbers
    a key is taken as the number it denotes, which must be finite. -/
def checkKey (checker : Checker) (ty : Ty) (key : String) (path : Path) : Except Fault Unit :=
  match ty with
  | .primitive .number =>
    if Binary64.isFiniteDecimal key.toList then
      (checker ty (.number (.float (.zero false))) path).map fun _ => ()
    else .error (.mismatch path .numericKey)
  | _ => (checker ty (.string key) path).map fun _ => ()

/-- Every member of an object, key and value, against one type each. -/
def checkEntries (checker : Checker) (keyTy valueTy : Ty) (path : Path) :
    List (String × Json) → Entries Json → Except Fault (Entries Json)
  | [], done => .ok done
  | (key, v) :: rest, done => do
    let entryPath := path ++ [.member key]
    checkKey checker keyTy key entryPath
    let out ← checker valueTy v entryPath
    checkEntries checker keyTy valueTy path rest (done.put key out)

/-! ## 2. Structs -/

/-- Whether a reference passes as many arguments as the definition has parameters. -/
def checkArity (name : String) (generics : List String) (args : List Ty) : Except Fault Unit :=
  if generics.length = args.length then .ok ()
  else .error (.schema (.genericArity name generics.length args.length))

/-- The declared fields of an object, in declared order. A field that is there is checked against
    its type, one that is not is filled in or left out, and if it is required it is missing. -/
def checkMembers (checker : Checker) (bindings : Ty.Bindings) (object : Entries Json)
    (path : Path) : List Field → Entries Json → Except Fault (Entries Json)
  | [], done => .ok done
  | field :: rest, done =>
    match object.get? field.name with
    | some v => do
      let out ← checker (field.shape.1.substitute bindings) v (path ++ [.member field.name])
      checkMembers checker bindings object path rest (done.put field.name out)
    | none =>
      match field.default with
      | some default =>
        checkMembers checker bindings object path rest (done.put field.name default)
      | none =>
        if field.isRequired then .error (.missing path field.name)
        else checkMembers checker bindings object path rest done

/-- A value against a struct with type arguments. -/
def checkFields (checker : Checker) (s : StructDef) (args : List Ty) (v : Json) (path : Path) :
    Except Fault (Entries Json) := do
  checkArity s.name s.generics args
  match v.members? with
  | none => throw (.mismatch path (.struct s.name))
  | some object => checkMembers checker (Ty.bind s.generics args) object path s.fields []

/-! ## 3. Containers and references -/

/-- A value against a container. A container that its kind does not allow is a fault of the
    type. -/
def checkContainer (checker : Checker) (kind : ContainerKind) (elems : List Ty) (variadic : Bool)
    (v : Json) (path : Path) : Except Fault Json :=
  match kind, elems, variadic with
  | .array, [elem], _ => items elem
  | .tuple, [elem], true => items elem
  | .tuple, elems, false =>
    match v.items? with
    | none => .error (.mismatch path .array)
    | some vs =>
      if vs.length ≠ elems.length then .error (.mismatch path (.arrayOfLength elems.length))
      else (checkPlaces checker path 0 elems vs).map .array
  | .record, [keyTy, valueTy], false =>
    match v.members? with
    | none => .error (.mismatch path .object)
    | some members => (checkEntries checker keyTy valueTy path members []).map .object
  | kind, elems, variadic =>
    .error (.schema (.unsupportedType (Ty.container kind elems variadic).describe))
where
  items (elem : Ty) : Except Fault Json :=
    match v.items? with
    | none => .error (.mismatch path .array)
    | some vs => (checkItems checker elem path 0 vs).map .array

/-- A value against a definition with type arguments. -/
def checkDefinition (checker : Checker) (body : Definition) (args : List Ty) (v : Json)
    (path : Path) : Except Fault Json :=
  match body with
  | .struct s => (checkFields checker s args v path).map .object
  | .enumeration e => accept (e.members.any fun m => m.value == v) v path (.memberOf e.name)
  | .alias a => do
    checkArity a.name a.generics args
    checker (a.ty.substitute (Ty.bind a.generics args)) v path

/-! ## 4. The check -/

/-- A value against a type, with a number of levels left. -/
def check (types : TypeTable) : Nat → Checker
  | 0, _, _, path => .error (.tooDeep path)
  | left + 1, ty, v, path =>
    match ty with
    | .primitive .null => accept v.isNull v path .null
    | .primitive .bool => accept v.isBool v path .boolean
    | .primitive .number => accept v.isNumber v path .number
    | .primitive .string => accept v.isString v path .string
    | .any => .ok v
    | .generic _ => .ok v
    | .absent => accept v.isNull v path .absence
    | .optional inner => if v.isNull then .ok .null else check types left inner v path
    | .literals values => accept (values.any fun w => w == v) v path (.oneOf values)
    | .union members => checkUnion (check types left) members v path
    | .container kind elems variadic =>
      checkContainer (check types left) kind elems variadic v path
    | .named target args =>
      match types.get target with
      | .error fault => .error (.schema fault)
      | .ok body => checkDefinition (check types left) body args v path

theorem check_optional (types : TypeTable) (left : Nat) (inner : Ty) (v : Json) (path : Path) :
    check types (left + 1) (.optional inner) v path =
      if v.isNull then .ok .null else check types left inner v path := rfl

theorem check_named_of_error {types : TypeTable} {target : DefId} {fault : SchemaFault}
    (h : types.get target = .error fault) (left : Nat) (args : List Ty) (v : Json) (path : Path) :
    check types (left + 1) (.named target args) v path = .error (.schema fault) := by
  simp only [check, h]

theorem check_named {types : TypeTable} {target : DefId} {body : Definition}
    (h : types.get target = .ok body) (left : Nat) (args : List Ty) (v : Json) (path : Path) :
    check types (left + 1) (.named target args) v path =
      checkDefinition (check types left) body args v path := by
  simp only [check, h]

/-- The check that starts on a level: so many levels are used up already. -/
def checkFrom (types : TypeTable) (level : Nat) : Checker :=
  check types (depthLimit - level)

end WireContract.Wire
