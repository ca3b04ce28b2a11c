import WireContract.Json.Printer
import WireContract.Text.Shown
import WireContract.Type.Basic

/-!
# Type expressions shown in messages

A type that cannot be written as an expression of the client's language is shown by its
structure: the constructor, and its parts in brackets. Values inside it are shown by their
structure too.
-/

namespace WireContract

open Text (shown)

/-- Parts between two texts, separated by commas. -/
def enclosed (opening : String) (parts : List String) (closing : String) : String :=
  opening ++ String.intercalate ", " parts ++ closing

namespace Json

mutual

/-- The structure of a value. -/
def describe : Json → String
  | .null => "Null"
  | .bool b => "Bool(" ++ toString b ++ ")"
  | .number n => "Number(" ++ n.render ++ ")"
  | .string s => "String(" ++ shown s ++ ")"
  | .array items => "Array " ++ enclosed "[" (describeAll items) "]"
  | .object members => "Object " ++ enclosed "\x7b" (describeMembers members) "\x7d"

def describeAll : List Json → List String
  | [] => []
  | v :: rest => describe v :: describeAll rest

def describeMembers : List (String × Json) → List String
  | [] => []
  | (k, v) :: rest => (shown k ++ ": " ++ describe v) :: describeMembers rest

end

end Json

/-- The name of a kind of values. -/
def Primitive.title : Primitive → String
  | .null => "Null"
  | .bool => "Bool"
  | .number => "Number"
  | .string => "String"

/-- The name of a kind of containers. -/
def ContainerKind.title : ContainerKind → String
  | .array => "Array"
  | .record => "Record"
  | .tuple => "Tuple"

namespace Ty

mutual

/-- The structure of a type. -/
def describe : Ty → String
  | .primitive kind => "Primitive(" ++ kind.title ++ ")"
  | .named target args =>
    "Named \x7b def: DefId(" ++ toString target ++ "), args: " ++
      enclosed "[" (describeAll args) "]" ++ " \x7d"
  | .generic name => "Generic(" ++ shown name ++ ")"
  | .container kind elems variadic =>
    "Container \x7b kind: " ++ kind.title ++ ", elems: " ++
      enclosed "[" (describeAll elems) "]" ++ ", variadic: " ++ toString variadic ++ " \x7d"
  | .union members => "Union(" ++ enclosed "[" (describeAll members) "]" ++ ")"
  | .literals values => "Literals(" ++ enclosed "[" (values.map Json.describe) "]" ++ ")"
  | .optional inner => "Optional(" ++ describe inner ++ ")"
  | .absent => "Absent"
  | .any => "Any"

def describeAll : List Ty → List String
  | [] => []
  | ty :: rest => describe ty :: describeAll rest

end

end Ty

end WireContract
