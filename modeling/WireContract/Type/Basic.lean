import WireContract.Json.Basic

/-!
# Type expressions

The types of parameters, results and fields. A composite type is referred to by the number of its
definition (`DefId`), with type arguments; two references are to the same composite exactly when
the numbers agree, whatever the arguments.

`substitute` puts arguments in place of type parameters, all at once: what it puts in is not
searched again.
-/

namespace WireContract

/-- The number of a definition, counted from zero in the order of declaration. -/
abbrev DefId := Nat

/-- The kinds of values without parts. Bytes and points in time are strings. -/
inductive Primitive where
  | null
  | bool
  | number
  | string
  deriving DecidableEq, Repr

/-- The kinds of containers. -/
inductive ContainerKind where
  | array
  | record
  | tuple
  deriving DecidableEq, Repr

/-- A type expression. -/
inductive Ty where
  | primitive (kind : Primitive)
  /-- A definition with arguments for its type parameters. -/
  | named (target : DefId) (args : List Ty)
  /-- A type parameter of the enclosing definition. -/
  | generic (name : String)
  /-- With `variadic` the last element repeats any number of times. -/
  | container (kind : ContainerKind) (elems : List Ty) (variadic : Bool)
  | union (members : List Ty)
  | literals (values : List Json)
  /-- The type or absence; it makes the field that has it optional. -/
  | optional (inner : Ty)
  /-- Absence itself, for instance as a member of a union. -/
  | absent
  | any
  deriving Repr

namespace Ty

instance : Inhabited Ty := ⟨.any⟩

def null : Ty := .primitive .null
def bool : Ty := .primitive .bool
def number : Ty := .primitive .number
def string : Ty := .primitive .string

/-- A reference without arguments. -/
def reference (target : DefId) : Ty := .named target []

/-- Lists of one element type. -/
def array (elem : Ty) : Ty := .container .array [elem] false

/-- Lists with one type for each place. -/
def tuple (elems : List Ty) : Ty := .container .tuple elems false

/-- Tuples of any length with one element type. -/
def variadic (elem : Ty) : Ty := .container .tuple [elem] true

/-- Objects with keys and values of one type each. -/
def record (key value : Ty) : Ty := .container .record [key, value] false

/-! ## 1. Absence -/

/-- Whether the type is absence itself. -/
def isAbsent : Ty → Bool
  | .absent => true
  | _ => false

mutual

/-- Whether a value of the type may be missing or null, as far as the expression itself shows:
    a reference is not looked into. -/
def admitsAbsence : Ty → Bool
  | .absent => true
  | .optional _ => true
  | .primitive .null => true
  | .union members => anyAdmitsAbsence members
  | _ => false

def anyAdmitsAbsence : List Ty → Bool
  | [] => false
  | ty :: rest => admitsAbsence ty || anyAdmitsAbsence rest

end

/-! ## 2. Substitution -/

/-- Types for the names of type parameters. -/
abbrev Bindings := Entries Ty

/-- The parameters of a definition with the arguments of one reference, in pairs as far as both
    reach. Of parameters with one name the last one counts. -/
def bind (generics : List String) (args : List Ty) : Bindings :=
  (generics.zip args).reverse

mutual

/-- The type with every bound parameter replaced. A parameter without a binding stays. -/
def substitute (b : Bindings) : Ty → Ty
  | .generic name => (b.get? name).getD (.generic name)
  | .named target args => .named target (substituteAll b args)
  | .container kind elems variadic => .container kind (substituteAll b elems) variadic
  | .union members => .union (substituteAll b members)
  | .optional inner => .optional (substitute b inner)
  | .primitive kind => .primitive kind
  | .literals values => .literals values
  | .absent => .absent
  | .any => .any

def substituteAll (b : Bindings) : List Ty → List Ty
  | [] => []
  | ty :: rest => substitute b ty :: substituteAll b rest

end

theorem substituteAll_eq_map (b : Bindings) (tys : List Ty) :
    substituteAll b tys = tys.map (substitute b) := by
  induction tys with
  | nil => rfl
  | cons ty rest ih => simp [substituteAll, ih]

theorem substitute_named (b : Bindings) (target : DefId) (args : List Ty) :
    substitute b (.named target args) = .named target (args.map (substitute b)) := by
  rw [substitute, substituteAll_eq_map]

theorem substitute_container (b : Bindings) (kind : ContainerKind) (elems : List Ty)
    (variadic : Bool) :
    substitute b (.container kind elems variadic) =
      .container kind (elems.map (substitute b)) variadic := by
  rw [substitute, substituteAll_eq_map]

theorem substitute_union (b : Bindings) (members : List Ty) :
    substitute b (.union members) = .union (members.map (substitute b)) := by
  rw [substitute, substituteAll_eq_map]

end Ty

end WireContract
