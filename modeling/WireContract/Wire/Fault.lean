import WireContract.Json.Printer
import WireContract.Json.Fault
import WireContract.Type.Fault

/-!
# Faults of a wire value

Why a value that came over the wire, or is about to go, is refused. A fault names the place in the
value by its steps from the root, and what was expected there as data; the words are put together
here and nowhere else.

Only a mismatch or a missing field tells that the value is no inhabitant of the type
(`Fault.isMismatch`); the others end every attempt.
-/

namespace WireContract.Wire

/-- One step into a value. -/
inductive Step where
  | member (name : String)
  | item (index : Nat)
  deriving DecidableEq, Repr

/-- The way from the root of a value to one of its parts. -/
abbrev Path := List Step

/-- A step as text. -/
def Step.render : Step → String
  | .member name => "." ++ name
  | .item index => "[" ++ toString index ++ "]"

/-- A path as text; the root is a dollar. -/
def Path.render (path : Path) : String :=
  path.foldl (fun text step => text ++ step.render) "$"

/-- What a value was expected to be. -/
inductive Expected where
  | null
  | boolean
  | number
  | string
  | absence
  | oneOf (values : List Json)
  | unionMember
  | array
  | arrayOfLength (n : Nat)
  | object
  | numericKey
  | struct (name : String)
  | memberOf (name : String)
  deriving Repr

/-- The words for an expectation. -/
def Expected.message : Expected → String
  | .null => "null"
  | .boolean => "a boolean"
  | .number => "a number"
  | .string => "a string"
  | .absence => "no value (null)"
  | .oneOf values => "one of " ++ (Json.array values).render
  | .unionMember => "a member of the union"
  | .array => "an array"
  | .arrayOfLength n => "an array of length " ++ toString n
  | .object => "an object"
  | .numericKey => "a numeric key"
  | .struct name => "an object (" ++ name ++ ")"
  | .memberOf name => "a member of " ++ name

/-- Why a value is refused. -/
inductive Fault where
  | notJson (error : Json.SyntaxError)
  | mismatch (path : Path) (expected : Expected)
  | missing (path : Path) (field : String)
  | tooDeep (path : Path)
  /-- The type itself is at fault; no value can be checked against it. -/
  | schema (fault : SchemaFault)
  deriving Repr

namespace Fault

/-- Whether the fault only says that the value does not fit, so that a union may try its next
    member. -/
def isMismatch : Fault → Bool
  | .mismatch _ _ => true
  | .missing _ _ => true
  | _ => false

/-- The words for a fault. -/
def message : Fault → String
  | .notJson error => "invalid JSON: " ++ error.message
  | .mismatch path expected =>
    "at " ++ path.render ++ ": expected " ++ expected.message
  | .missing path field =>
    "at " ++ path.render ++ ": missing required field `" ++ field ++ "`"
  | .tooDeep path => "at " ++ path.render ++ ": nesting is too deep"
  | .schema fault => fault.message

end Fault

end WireContract.Wire
