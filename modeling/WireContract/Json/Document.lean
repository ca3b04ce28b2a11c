import WireContract.Json.Basic
import WireContract.Json.Fault

/-!
# JSON documents: values with their places

A document is what a reader has seen of a text, with the offsets it has seen it at. Reading never
fails as a whole: where the text stops being JSON the document ends, and carries the fault at the
very place -- inside a value (`broken`), in front of a value that was announced by its key
(`unreached`), or between the parts of an array or object (`Ending.broken`). A document has at
most one fault, since nothing is read behind it.

Whoever gives a document a meaning walks it from the front, and so finds whichever comes first in
the text: a fault, or a value that does not fit.

* `Document.fault?`: the fault, if there is one, with the path to it;
* `Document.value`: the value of a document, places forgotten.
-/

namespace WireContract.Json

/-! ## 1. Documents -/

/-- A value without parts. -/
inductive Scalar where
  | null
  | bool (value : Bool)
  | number (value : Json.Number)
  | string (value : String)
  deriving Repr

/-- A scalar as a value. -/
def Scalar.value : Scalar → Json
  | .null => .null
  | .bool b => .bool b
  | .number n => .number n
  | .string s => .string s

/-- How the parts of an array or object end. -/
inductive Ending where
  /-- With the closing bracket; `stop` bytes lie in front of what follows. -/
  | closed (stop : Nat)
  /-- With a fault between two parts, or in front of the first or of the closing bracket. -/
  | broken (fault : Fault)
  /-- With the last part, which has the fault. -/
  | cut
  deriving Repr

/-- A value, or what there is of one, with its places. -/
inductive Document where
  | scalar (value : Scalar) (stop : Nat)
  | array (start : Nat) (items : List Document) (ending : Ending)
  /-- The members have their key, the offset behind the key, and their value. -/
  | object (start : Nat) (members : List (String × Nat × Document)) (ending : Ending)
  | broken (fault : Fault)
  | unreached (fault : Fault)
  deriving Repr

namespace Document

/-- The offset behind a document that is read to its end; for any other, that of its fault. -/
def stop : Document → Nat
  | .scalar _ stop => stop
  | .array _ _ (.closed stop) => stop
  | .array start _ _ => start
  | .object _ _ (.closed stop) => stop
  | .object start _ _ => start
  | .broken fault => fault.offset
  | .unreached fault => fault.offset

/-! ## 2. Paths -/

/-- One step into a document. -/
inductive Step where
  | member (key : String)
  | item (index : Nat)
  /-- To a member whose key is not known. -/
  | somewhere
  deriving DecidableEq, Repr

/-- The way from the whole document to one of its parts. -/
abbrev Path := List Step

/-- The steps behind the first: members behind a point, items in brackets. -/
def Path.tail : Path → String
  | [] => ""
  | .member key :: rest => "." ++ key ++ Path.tail rest
  | .item index :: rest => "[" ++ toString index ++ "]" ++ Path.tail rest
  | .somewhere :: rest => ".?" ++ Path.tail rest

/-- A path as text; the whole document is a single point. -/
def Path.render : Path → String
  | [] => "."
  | .member key :: rest => key ++ Path.tail rest
  | .item index :: rest => "[" ++ toString index ++ "]" ++ Path.tail rest
  | .somewhere :: rest => "?" ++ Path.tail rest

/-! ## 3. The fault -/

/-- The fault between the parts of an array or object. -/
def endFault? (ending : Ending) (path : Path) : Option (Path × Fault) :=
  match ending with
  | .broken fault => some (path, fault)
  | _ => none

mutual

/-- The fault of a document, with the path that leads to it from `path`. Between the members of
    an object it lies at a member yet unknown; a value that its key announces and that is not
    reached is a fault of the object. -/
def fault? (path : Path) : Document → Option (Path × Fault)
  | .scalar _ _ => none
  | .array _ items ending => itemsFault? path 0 items <|> endFault? ending path
  | .object _ members ending =>
    membersFault? path members <|> endFault? ending (path ++ [.somewhere])
  | .broken fault => some (path, fault)
  | .unreached fault => some (path.dropLast, fault)

def itemsFault? (path : Path) (index : Nat) : List Document → Option (Path × Fault)
  | [] => none
  | item :: rest => fault? (path ++ [.item index]) item <|> itemsFault? path (index + 1) rest

def membersFault? (path : Path) : List (String × Nat × Document) → Option (Path × Fault)
  | [] => none
  | (key, _, value) :: rest => fault? (path ++ [.member key]) value <|> membersFault? path rest

end

/-! ## 4. The value -/

mutual

/-- The value of a document. A key that an object repeats keeps its first place and takes its
    last value. What is not read to its end counts as null -- ask for `fault?` first. -/
def value : Document → Json
  | .scalar s _ => s.value
  | .array _ items _ => .array (itemValues items)
  | .object _ members _ => .object (memberValues members [])
  | .broken _ => .null
  | .unreached _ => .null

def itemValues : List Document → List Json
  | [] => []
  | item :: rest => value item :: itemValues rest

def memberValues : List (String × Nat × Document) → Entries Json → Entries Json
  | [], done => done
  | (key, _, v) :: rest, done => memberValues rest (done.put key (value v))

end

end Document

end WireContract.Json
