import WireContract.Manifest.Basic
import WireContract.Manifest.Fault

/-!
# From a manifest to a registry

All type names are declared before any body is read, so that names resolve wherever they stand.
A name means, in this order: a type parameter in scope, a built-in type, a declared type.

* `TypeForm.resolve`: a written type becomes a type expression;
* `Manifest.toRegistry`: a manifest becomes a registry and the options it asks for.
-/

namespace WireContract

open Manifest (Fault)

/-- The built-in types by their names. -/
def builtinType? : String → Option Ty
  | "null" | "none" => some .null
  | "bool" | "boolean" => some .bool
  | "int" | "float" | "number" => some .number
  | "str" | "string" | "bytes" | "datetime" => some .string
  | "any" => some .any
  | "unset" | "undefined" => some .absent
  | _ => none

/-- What names mean in one place: the table, the type parameters in scope, and the words for the
    place. -/
structure Scope where
  types : TypeTable
  generics : List String
  place : String

/-- The meaning of a name. -/
def Scope.resolveName (scope : Scope) (name : String) : Except Fault Ty :=
  if scope.generics.contains name then .ok (.generic name)
  else
    match builtinType? name with
    | some ty => .ok ty
    | none =>
      match scope.types.lookup name with
      | some id => .ok (.reference id)
      | none => .error (.unknownType name scope.place)

namespace TypeForm

mutual

/-- The type expression that is written. Arguments can be passed to declared types only. -/
def resolve (scope : Scope) : TypeForm → Except Fault Ty
  | .bare name => scope.resolveName name
  | .array elem => (resolve scope elem).map Ty.array
  | .set elem => (resolve scope elem).map Ty.array
  | .variadic elem => (resolve scope elem).map Ty.variadic
  | .tuple elems => (resolveAll scope elems).map Ty.tuple
  | .record key value => do
    let key ← resolve scope key
    let value ← resolve scope value
    return .record key value
  | .union members => (resolveAll scope members).map Ty.union
  | .literal values => .ok (.literals values)
  | .optional inner => (resolve scope inner).map Ty.optional
  | .ref name args =>
    match scope.resolveName name with
    | .error fault => .error fault
    | .ok (.named target _) => (resolveAll scope args).map (Ty.named target)
    | .ok ty => if args.isEmpty then .ok ty else .error (.schema (.genericArity name 0 args.length))

def resolveAll (scope : Scope) : List TypeForm → Except Fault (List Ty)
  | [] => .ok []
  | form :: rest => do
    let ty ← resolve scope form
    let tys ← resolveAll scope rest
    return ty :: tys

end

end TypeForm

/-- The field of a struct named `owner`. A default makes the field optional. -/
def FieldDecl.resolve (types : TypeTable) (owner : String) (generics : List String)
    (f : FieldDecl) : Except Fault Field := do
  let ty ← f.ty.resolve ⟨types, generics, "field `" ++ owner ++ "." ++ f.name ++ "`"⟩
  return { name := f.name, ty, optional := f.optional || f.default.isSome, default := f.default }

/-- The definition that a declaration gives to a name. -/
def TypeDecl.resolve (types : TypeTable) (name : String) : TypeDecl → Except Fault Definition
  | .struct doc generics fields => do
    let fields ← fields.mapM (FieldDecl.resolve types name generics)
    return .struct { name, generics, fields, doc }
  | .enumeration doc members =>
    .ok (.enumeration { name, members := members.map fun (n, v) => ⟨n, v⟩, doc })
  | .alias generics ty => do
    let ty ← ty.resolve ⟨types, generics, "alias `" ++ name ++ "`"⟩
    return .alias { name, generics, ty }

/-- The parameter of a method named `method`. -/
def ParamDecl.resolve (types : TypeTable) (method : String) (p : ParamDecl) :
    Except Fault Param := do
  let ty ← p.ty.resolve
    ⟨types, [], "parameter `" ++ p.name ++ "` of method `" ++ method ++ "`"⟩
  return { name := p.name, ty, default := p.default }

/-- The signature that a method declaration gives. -/
def MethodDecl.resolve (types : TypeTable) (m : MethodDecl) : Except Fault Signature := do
  let params ← m.params.mapM (ParamDecl.resolve types m.name)
  let returns ← m.returns.resolve ⟨types, [], "return type of method `" ++ m.name ++ "`"⟩
  return { name := m.name, doc := m.doc, params, returns, rateLimit := m.rateLimit }

namespace Manifest

/-- A fault of the schema as one of the manifest. -/
def ofSchema {α : Type} : Except SchemaFault α → Except Fault α
  | .ok a => .ok a
  | .error fault => .error (.schema fault)

/-- Declare names one after another; their numbers follow each other. -/
def declareAll (types : TypeTable) : List String → Except SchemaFault (List DefId × TypeTable)
  | [] => .ok ([], types)
  | name :: rest => do
    let (id, types) ← types.declare name
    let (ids, types) ← declareAll types rest
    return (id :: ids, types)

/-- Define declared names one after another. Bodies are read against the table as it stands; what
    is filled in meanwhile changes no name. -/
def defineAll (types : TypeTable) : List (DefId × String × TypeDecl) → Except Fault TypeTable
  | [] => .ok types
  | (id, name, decl) :: rest => do
    let body ← decl.resolve types name
    let types ← ofSchema (types.define id body)
    defineAll types rest

/-- Register methods one after another. -/
def registerAll (registry : Registry) : List MethodDecl → Except Fault Registry
  | [] => .ok registry
  | m :: rest => do
    let signature ← m.resolve registry.types
    let (_, registry) ← ofSchema (registry.register signature)
    registerAll registry rest

/-- The registry of a manifest, and the options for its client code. -/
def toRegistry (m : Manifest) : Except Fault (Registry × Bindings.Options) := do
  let (ids, types) ← ofSchema (declareAll .empty (m.types.map (·.1)))
  let types ← defineAll types (ids.zip m.types)
  let registry ← registerAll (.ofTypes types) m.methods
  return (registry, m.options.getD {})

end Manifest

end WireContract
