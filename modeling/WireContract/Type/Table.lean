import WireContract.Text.Identifier
import WireContract.Type.Definition
import WireContract.Type.Fault

/-!
# The table of definitions

Definitions are stored in two steps: a name is DECLARED, which reserves the next number, and later
DEFINED. So every name can be referred to before any body is read, and bodies may refer to
themselves and to one another. A slot is filled once; a call that fails leaves the table as it
was.

* `declare`, `define`, `insert`: the three ways to write;
* `get`, `name`, `lookup`, `undefined`: what can be asked.
-/

namespace WireContract

/-- One place of the table: a reserved name, or a definition. -/
inductive Slot where
  | reserved (name : String)
  | defined (body : Definition)
  deriving Repr

/-- The name that a slot stands for. -/
def Slot.name : Slot → String
  | .reserved name => name
  | .defined body => body.name

/-- Definitions by their numbers. -/
structure TypeTable where
  slots : List Slot := []
  deriving Repr

namespace TypeTable

/-- The table without a definition. -/
def empty : TypeTable := {}

/-- The number of slots. -/
def size (t : TypeTable) : Nat := t.slots.length

/-! ## 1. Questions -/

/-- The definition with a number. -/
def get (t : TypeTable) (id : DefId) : Except SchemaFault Definition :=
  match t.slots[id]? with
  | some (.defined body) => .ok body
  | some (.reserved name) => .error (.undefinedDefinition name)
  | none => .error (.unknownDefinition id)

theorem lt_size_of_get {t : TypeTable} {id : DefId} {body : Definition}
    (h : t.get id = .ok body) : id < t.size := by
  rw [get] at h
  cases hslot : t.slots[id]? with
  | none => simp [hslot] at h
  | some slot => exact (List.getElem?_eq_some_iff.mp hslot).1

/-- The name of a number, defined or not. -/
def name (t : TypeTable) (id : DefId) : Except SchemaFault String :=
  match t.slots[id]? with
  | some slot => .ok slot.name
  | none => .error (.unknownDefinition id)

/-- The number of a name. -/
def lookup (t : TypeTable) (name : String) : Option DefId :=
  t.slots.findIdx? fun slot => slot.name == name

/-- The names declared and not yet defined, in order of declaration. -/
def undefined (t : TypeTable) : List String :=
  t.slots.filterMap fun
    | .reserved name => some name
    | .defined _ => none

/-! ## 2. Writing -/

/-- The first name a definition is written with that is no identifier. -/
def checkNames (body : Definition) : Except SchemaFault Unit :=
  match body.bareNames.find? fun name => !Text.isIdentifier name with
  | some name => .error (.invalidIdentifier name)
  | none => .ok ()

/-- Reserve the next number for a name. -/
def declare (t : TypeTable) (name : String) : Except SchemaFault (DefId × TypeTable) :=
  if !Text.isIdentifier name then .error (.invalidIdentifier name)
  else if (t.lookup name).isSome then .error (.duplicateDefinition name)
  else .ok (t.size, { slots := t.slots ++ [.reserved name] })

/-- Fill a slot that is reserved for the definition's name. -/
def define (t : TypeTable) (id : DefId) (body : Definition) : Except SchemaFault TypeTable := do
  checkNames body
  match t.slots[id]? with
  | none => throw (.unknownDefinition id)
  | some (.reserved name) =>
    if name = body.name then return { slots := t.slots.set id (.defined body) }
    else throw (.duplicateDefinition body.name)
  | some (.defined _) => throw (.duplicateDefinition body.name)

/-- Declare and define in one step. -/
def insert (t : TypeTable) (body : Definition) : Except SchemaFault (DefId × TypeTable) := do
  checkNames body
  let (id, t) ← t.declare body.name
  let t ← t.define id body
  return (id, t)

end TypeTable

end WireContract
