import WireContract.Entries
import WireContract.Binary64.Basic

/-!
# JSON values

Objects keep their members in order of arrival. Numbers are of two kinds that are never equal:
integers (from `-2 ^ 63` to `2 ^ 64 - 1`, as far as a text can bring them) and binary
floating-point numbers; `1` and `1.0` are two values.

Equality (`==`) compares objects as tables, without regard to the order of their members, and
floating-point numbers by value, so that the two zeros are equal.
-/

namespace WireContract

/-- A number of a JSON text. -/
inductive Json.Number where
  | integer (value : Int)
  | float (value : Binary64)
  deriving DecidableEq, Repr

/-- A JSON value. -/
inductive Json where
  | null
  | bool (value : Bool)
  | number (value : Json.Number)
  | string (value : String)
  | array (items : List Json)
  | object (members : List (String × Json))
  deriving Repr

namespace Json

instance : Inhabited Json := ⟨.null⟩

/-! ## 1. Kinds -/

def isNull : Json → Bool
  | .null => true
  | _ => false

def isBool : Json → Bool
  | .bool _ => true
  | _ => false

def isNumber : Json → Bool
  | .number _ => true
  | _ => false

def isString : Json → Bool
  | .string _ => true
  | _ => false

/-- The items of an array. -/
def items? : Json → Option (List Json)
  | .array items => some items
  | _ => none

/-- The members of an object. -/
def members? : Json → Option (Entries Json)
  | .object members => some members
  | _ => none

/-! ## 2. Equality -/

/-- Whether two numbers are equal: of one kind, and of one value. -/
def Number.same : Json.Number → Json.Number → Bool
  | .integer a, .integer b => a == b
  | .float a, .float b => a.sameValue b
  | _, _ => false

mutual

/-- Whether two values are equal. -/
def same : Json → Json → Bool
  | .null, .null => true
  | .bool a, .bool b => a == b
  | .number a, .number b => a.same b
  | .string a, .string b => a == b
  | .array a, .array b => sameItems a b
  | .object a, .object b => a.length == b.length && sameMembers a b
  | _, _ => false

/-- Item by item, for arrays of one length. -/
def sameItems : List Json → List Json → Bool
  | [], [] => true
  | a :: as, b :: bs => same a b && sameItems as bs
  | _, _ => false

/-- Whether every member of the first object is in the second with an equal value. -/
def sameMembers : List (String × Json) → Entries Json → Bool
  | [], _ => true
  | (k, v) :: rest, other =>
    (match other.get? k with
      | some w => same v w
      | none => false) && sameMembers rest other

end

instance : BEq Json := ⟨same⟩

end Json

end WireContract
