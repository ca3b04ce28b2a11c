import WireContract.Bindings.Draft
import WireContract.Text.Identifier
import WireContract.Type.Shown
import WireContract.Type.Table

/-!
# Types as text of the client's language

A reference is written as a name with its arguments, never as the body behind it, so that
self-reference and mutual reference stay finite. The body is declared elsewhere; the draft's
mentions say which bodies are needed.

* `typeText`: a type expression;
* `fieldText`: one member of an interface.
-/

namespace WireContract.Bindings

open Draft

/-- A container out of the texts of its elements. -/
def containerText (kind : ContainerKind) (variadic : Bool) (elems : List Draft)
    (ty : Ty) : Draft :=
  match kind, elems, variadic with
  | .array, [elem], _ => write "(" ++ elem ++ write ")[]"
  | .tuple, [elem], true => write "(" ++ elem ++ write ")[]"
  | .tuple, elems, false => write "[" ++ joined ", " elems ++ write "]"
  | .record, [key, value], false =>
    write "Record<" ++ key ++ write ", " ++ value ++ write ">"
  | _, _, _ => fail (.unsupportedType ty.describe)

/-- A reference out of the texts of its arguments. The definition must be there and take as many
    arguments; only then it is mentioned. -/
def referenceText (types : TypeTable) (target : DefId) (args : List Draft) : Draft :=
  match types.get target with
  | .error fault => fail fault
  | .ok body =>
    if body.generics.length ≠ args.length then
      fail (.genericArity body.name body.generics.length args.length)
    else
      mention target ++ write body.name ++
        (if args.isEmpty then empty else write "<" ++ joined ", " args ++ write ">")

/-- A text in brackets. -/
def bracketed (d : Draft) : Draft := write "(" ++ d ++ write ")"

mutual

/-- A type as an expression. -/
def typeText (types : TypeTable) : Ty → Draft
  | .primitive .null => write "null"
  | .primitive .bool => write "boolean"
  | .primitive .number => write "number"
  | .primitive .string => write "string"
  | .any => write "any"
  | .absent => write "undefined"
  | .generic name => write name
  | .named target args => referenceText types target (typeTexts types args)
  | .container kind elems variadic =>
    containerText kind variadic (typeTexts types elems) (.container kind elems variadic)
  | .union [] => fail (.unsupportedType (Ty.union []).describe)
  | .union (first :: rest) =>
    bracketed (joined "|" (bracketed (typeText types first) ::
      (typeTexts types rest).map bracketed))
  | .literals [] => fail (.unsupportedType (Ty.literals []).describe)
  | .literals (first :: rest) => joined "|" (literal first :: rest.map literal)
  | .optional inner => write "((" ++ typeText types inner ++ write ")|(undefined))"

def typeTexts (types : TypeTable) : List Ty → List Draft
  | [] => []
  | ty :: rest => typeText types ty :: typeTexts types rest

end

theorem typeTexts_eq_map (types : TypeTable) (tys : List Ty) :
    typeTexts types tys = tys.map (typeText types) := by
  induction tys with
  | nil => rfl
  | cons ty rest ih => simp [typeTexts, ih]

/-- The name of a member: bare if it is an identifier, else as a string. -/
def memberName (name : String) : String :=
  if Text.isIdentifier name then name else Json.quoted name

/-- One member of an interface, marked when it may be left out. -/
def fieldText (types : TypeTable) (field : Field) : Draft :=
  write (memberName field.name) ++ write (if field.shape.2 then "?: " else ": ") ++
    typeText types field.shape.1 ++ write ";"

end WireContract.Bindings
