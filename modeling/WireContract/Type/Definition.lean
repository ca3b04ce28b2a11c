import WireContract.Type.Basic

/-!
# Definitions of composite types

A definition is a struct, an enumeration or an alias. `Field.shape` splits the type of a field
into the type of the value that may be there and whether it may be left out:

* an optional type and a union with absence among its members say so themselves;
* any other type leaves it to the field's mark and its default value.
-/

namespace WireContract

/-- A field of a struct. `optional` and `default` are independent: a default alone makes the
    field optional too. -/
structure Field where
  name : String
  ty : Ty
  optional : Bool := false
  default : Option Json := none
  deriving Repr

/-- The members of a union that are not absence. -/
def Ty.present (members : List Ty) : List Ty :=
  members.filter fun ty => !ty.isAbsent

/-- What is left of a union without absence: a single member stands for itself. -/
def Ty.unionOf : List Ty → Ty
  | [] => .absent
  | [ty] => ty
  | tys => .union tys

/-- The type of a field that is there, and whether the field may be left out. -/
def Field.shape (f : Field) : Ty × Bool :=
  match f.ty with
  | .optional inner => (inner, true)
  | .union members =>
    if members.any Ty.isAbsent then (Ty.unionOf (Ty.present members), true)
    else (.union members, f.optional || f.default.isSome)
  | ty => (ty, f.optional || f.default.isSome)

/-- Whether the field must be there. -/
def Field.isRequired (f : Field) : Bool := !f.shape.2

/-- A struct: its fields in the order in which they are declared and written. -/
structure StructDef where
  name : String
  generics : List String := []
  fields : List Field := []
  doc : Option String := none
  deriving Repr

/-- The number of fields that must be there. -/
def StructDef.requiredFields (s : StructDef) : Nat :=
  (s.fields.filter Field.isRequired).length

/-- A member of an enumeration. -/
structure EnumMember where
  name : String
  value : Json
  deriving Repr

/-- An enumeration: named constants. -/
structure EnumDef where
  name : String
  members : List EnumMember := []
  doc : Option String := none
  deriving Repr

/-- An alias: a name for a type expression. -/
structure AliasDef where
  name : String
  generics : List String := []
  ty : Ty
  deriving Repr

/-- The definition of a composite type. -/
inductive Definition where
  | struct (s : StructDef)
  | enumeration (e : EnumDef)
  | alias (a : AliasDef)
  deriving Repr

namespace Definition

def name : Definition → String
  | .struct s => s.name
  | .enumeration e => e.name
  | .alias a => a.name

/-- The type parameters; an enumeration has none. -/
def generics : Definition → List String
  | .struct s => s.generics
  | .enumeration _ => []
  | .alias a => a.generics

/-- The names besides its own that the definition is written with: type parameters, and the
    members of an enumeration. -/
def bareNames : Definition → List String
  | .struct s => s.generics
  | .enumeration e => e.members.map (·.name)
  | .alias a => a.generics

end Definition

end WireContract
