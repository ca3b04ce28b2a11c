import WireContract.Json.Document
import WireContract.Json.Printer
import WireContract.Text.Shown
import WireContract.Type.Fault

/-!
# Faults of a manifest

A manifest can fail as a text (no JSON, or JSON that is no manifest), and in what it declares. The
faults of the text name the part by its path and the place by line and column; what was found and
what was expected is data, and put into words here.
-/

namespace WireContract.Manifest

open Json (Document)

/-- What was found in place of something else. -/
inductive Found where
  | null
  | bool (value : Bool)
  | number (value : Json.Number)
  | string (value : String)
  | sequence
  | map
  deriving Repr

/-- The words for a finding. -/
def Found.message : Found → String
  | .null => "null"
  | .bool b => "boolean `" ++ toString b ++ "`"
  | .number (.integer i) => "integer `" ++ toString i ++ "`"
  | .number (.float x) => "floating point `" ++ (Json.Number.float x).render ++ "`"
  | .string s => "string " ++ Text.shown s
  | .sequence => "sequence"
  | .map => "map"

/-- What is found at a document that is not broken. -/
def Found.ofDocument : Document → Found
  | .scalar .null _ => .null
  | .scalar (.bool b) _ => .bool b
  | .scalar (.number n) _ => .number n
  | .scalar (.string s) _ => .string s
  | .array _ _ _ => .sequence
  | .object _ _ _ => .map
  | .broken _ => .null
  | .unreached _ => .null

/-- Names in a message: one, two, or one of several. -/
def alternatives : List String → String
  | [] => ""
  | [a] => "`" ++ a ++ "`"
  | [a, b] => "`" ++ a ++ "` or `" ++ b ++ "`"
  | names => "one of " ++ String.intercalate ", " (names.map fun n => "`" ++ n ++ "`")

/-- What is wrong with a part of a manifest. -/
inductive Cause where
  | noJson (cause : Json.Cause)
  | wrongType (found : Found) (expected : String)
  | wrongValue (found : Found) (expected : String)
  | unknownField (name : String) (expected : List String)
  | unknownKind (name : String) (expected : List String)
  | duplicateField (name : String)
  | missingField (name : String)
  | wrongLength (length : Nat) (expected : String)
  | noTypeForm
  deriving Repr

/-- The words for a cause. -/
def Cause.message : Cause → String
  | .noJson cause => cause.message
  | .wrongType found expected => "invalid type: " ++ found.message ++ ", expected " ++ expected
  | .wrongValue found expected => "invalid value: " ++ found.message ++ ", expected " ++ expected
  | .unknownField name expected =>
    "unknown field `" ++ name ++ "`, expected " ++ alternatives expected
  | .unknownKind name expected =>
    "unknown variant `" ++ name ++ "`, expected " ++ alternatives expected
  | .duplicateField name => "duplicate field `" ++ name ++ "`"
  | .missingField name => "missing field `" ++ name ++ "`"
  | .wrongLength length expected =>
    "invalid length " ++ toString length ++ ", expected " ++ expected
  | .noTypeForm => "data did not match any variant of untagged enum TypeExpr"

/-- A fault of a manifest's text. -/
structure TextFault where
  path : Document.Path
  cause : Cause
  position : Text.Position
  deriving Repr

/-- The words for a fault of the text. -/
def TextFault.message (f : TextFault) : String :=
  "at " ++ f.path.render ++ ": " ++ f.cause.message ++ " at " ++ f.position.describe

/-- Why a manifest is refused. -/
inductive Fault where
  | text (fault : TextFault)
  /-- A type name that stands for nothing, and where it stands. -/
  | unknownType (name context : String)
  | duplicateType (name : String)
  | schema (fault : SchemaFault)
  deriving Repr

/-- The words for a fault. -/
def Fault.message : Fault → String
  | .text fault => fault.message
  | .unknownType name context => "unknown type `" ++ name ++ "` in " ++ context
  | .duplicateType name => "type `" ++ name ++ "` is declared in more than one manifest"
  | .schema fault => fault.message

end WireContract.Manifest
