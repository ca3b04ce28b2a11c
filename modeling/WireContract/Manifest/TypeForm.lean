import WireContract.Json.Document
import WireContract.Manifest.Basic

/-!
# Written types in a document

A type is written as a string, which is a name, or as an object with a single member, whose key
says which compound form it is. Whatever fits neither is no type; the reader of the manifest has
one message for all of them.
-/

namespace WireContract.TypeForm

open Json (Document)

/-- The text of a string. -/
def text? : Document → Option String
  | .scalar (.string s) _ => some s
  | _ => none

/-- The values of an array. -/
def values? : Document → Option (List Json)
  | .array _ items _ => some (Document.itemValues items)
  | _ => none

/-- A reference out of what its members gave; the name is required. -/
def reference? (name : Option String) (args : Option (List TypeForm)) : Option TypeForm :=
  name.map fun name => .ref name (args.getD [])

mutual

/-- The type that a document writes. -/
def ofDocument : Document → Option TypeForm
  | .scalar (.string s) _ => some (.bare s)
  | .object _ [(key, _, value)] _ =>
    match key with
    | "array" => (ofDocument value).map .array
    | "set" => (ofDocument value).map .set
    | "variadic" => (ofDocument value).map .variadic
    | "optional" => (ofDocument value).map .optional
    | "tuple" => (ofItems value).map .tuple
    | "union" => (ofItems value).map .union
    | "record" =>
      match ofItems value with
      | some [key, value] => some (.record key value)
      | _ => none
    | "literal" => (values? value).map .literal
    | "ref" => ofReference value
    | _ => none
  | _ => none

/-- The types of an array of types. -/
def ofItems : Document → Option (List TypeForm)
  | .array _ items _ => ofAll items
  | _ => none

def ofAll : List Document → Option (List TypeForm)
  | [] => some []
  | d :: rest =>
    match ofDocument d, ofAll rest with
    | some form, some forms => some (form :: forms)
    | _, _ => none

/-- A reference: its name and, if there are any, its arguments, by their keys or in this order. -/
def ofReference : Document → Option TypeForm
  | .array _ [name] _ => reference? (text? name) none
  | .array _ [name, args] _ =>
    match ofItems args with
    | some args => reference? (text? name) (some args)
    | none => none
  | .object _ members _ => ofReferenceMembers none none members
  | _ => none

/-- The members of a reference, each key at most once, after a name and arguments already read. -/
def ofReferenceMembers (name : Option String) (args : Option (List TypeForm)) :
    List (String × Nat × Document) → Option TypeForm
  | [] => reference? name args
  | (key, _, value) :: rest =>
    match key with
    | "name" =>
      match name, text? value with
      | none, some text => ofReferenceMembers (some text) args rest
      | _, _ => none
    | "args" =>
      match args, ofItems value with
      | none, some forms => ofReferenceMembers name (some forms) rest
      | _, _ => none
    | _ => none

end

end WireContract.TypeForm
