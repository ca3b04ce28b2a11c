import WireContract.Bindings.Declaration
import WireContract.Json.Basic

/-!
# Manifests

A manifest declares types and methods as they are written down, names not yet looked up. Several
manifests are merged into one: the first one with options gives them, type names must be new, and
methods follow each other.
-/

namespace WireContract

/-- A type as it is written: a name, or one of the compound forms. -/
inductive TypeForm where
  | bare (name : String)
  | array (elem : TypeForm)
  | set (elem : TypeForm)
  | tuple (elems : List TypeForm)
  | variadic (elem : TypeForm)
  | record (key value : TypeForm)
  | union (members : List TypeForm)
  | literal (values : List Json)
  | optional (inner : TypeForm)
  | ref (name : String) (args : List TypeForm)
  deriving Repr

instance : Inhabited TypeForm := ⟨.bare ""⟩

/-- A field of a struct as it is written. -/
structure FieldDecl where
  name : String
  ty : TypeForm
  optional : Bool := false
  default : Option Json := none
  deriving Repr

/-- A type declaration; its name stands in front of it. -/
inductive TypeDecl where
  | struct (doc : Option String) (generics : List String) (fields : List FieldDecl)
  | enumeration (doc : Option String) (members : Entries Json)
  | alias (generics : List String) (ty : TypeForm)
  deriving Repr

/-- A parameter of a method as it is written. -/
structure ParamDecl where
  name : String
  ty : TypeForm
  default : Option Json := none
  deriving Repr

/-- A method as it is written. -/
structure MethodDecl where
  name : String
  doc : Option String := none
  params : List ParamDecl := []
  returns : TypeForm
  rateLimit : Nat := 0
  deriving Repr

/-- A manifest. -/
structure Manifest where
  options : Option Bindings.Options := none
  types : Entries TypeDecl := []
  methods : List MethodDecl := []
  deriving Repr

namespace Manifest

/-- The manifest that declares nothing. -/
def empty : Manifest := {}

/-- The declared types of two manifests together, or the first name that both declare. -/
def mergeTypes (types : Entries TypeDecl) :
    List (String × TypeDecl) → Except String (Entries TypeDecl)
  | [] => .ok types
  | (name, decl) :: rest =>
    if types.has name then .error name else mergeTypes (types ++ [(name, decl)]) rest

/-- A manifest with another one behind it; a type name declared in both is the failure. -/
def merge (m other : Manifest) : Except String Manifest := do
  let types ← mergeTypes m.types other.types
  return { options := m.options <|> other.options, types, methods := m.methods ++ other.methods }

end Manifest

end WireContract
