import WireContract.Entries
import WireContract.Text.Blank
import WireContract.Text.Cut

/-!
# Credentials in cookies

The credentials of a request come from its `Cookie` header, which is read as leniently as
browsers write it. A handler may change them; every change queues one `Set-Cookie` header for the
response.

* `Credentials.ofHeader`: the credentials of a header;
* `Credentials.get?`, `Credentials.set`: reading and changing them.
-/

namespace WireContract.Service

/-- Values by name, and the headers queued so far. -/
structure Credentials where
  values : Entries String := []
  queued : List String := []
  deriving DecidableEq, Repr

namespace Credentials

/-! ## 1. Reading a header -/

/-- Characters of a quoted value: a backslash stands for the character behind it, at the end for
    nothing. -/
def unescape : List Char → List Char
  | [] => []
  | '\\' :: c :: rest => c :: unescape rest
  | '\\' :: [] => []
  | c :: rest => c :: unescape rest

/-- A value without its quotes, if it has them at both ends; any other stays as it is. -/
def unquote : List Char → List Char
  | [] => []
  | c :: rest =>
    if c = '"' ∧ rest.getLast? = some '"' then unescape rest.dropLast else c :: rest

/-- The name and the value of a piece of a header. Without an equals sign it is a value whose name
    is empty. -/
def nameAndValue (piece : List Char) : List Char × List Char :=
  let (name, value) := (Text.cutAt '=' piece).getD ([], piece)
  (Text.trim name, Text.trim value)

/-- Take up one piece of a header; an empty one counts for nothing. -/
def addPiece (values : Entries String) (piece : List Char) : Entries String :=
  let (name, value) := nameAndValue piece
  if name.isEmpty && value.isEmpty then values
  else values.put (String.ofList name) (String.ofList (unquote value))

/-- The credentials of a header. Of pieces with one name the last gives the value. -/
def ofHeader (header : String) : Credentials :=
  { values := (Text.segments ';' header.toList).foldl addPiece [] }

/-- The credentials of a request, whose header may be missing. -/
def ofHeader? (header : Option String) : Credentials :=
  ofHeader (header.getD "")

/-! ## 2. Reading and changing -/

/-- The value of a name. -/
def get? (c : Credentials) (name : String) : Option String := c.values.get? name

/-- The name under which a session travels. -/
def sessionName : String := "sessionid"

/-- The session's identifier. -/
def sessionId? (c : Credentials) : Option String := c.get? sessionName

/-- The header that asks the client to keep a value. -/
def setCookie (name value : String) : String :=
  name ++ "=" ++ value ++ "; Path=/; HttpOnly; Secure; SameSite=Strict"

/-- Give a name a value, or clear it; the client is told either way. -/
def set (c : Credentials) (name : String) (value : Option String) : Credentials :=
  { values :=
      match value with
      | some value => c.values.put name value
      | none => c.values.erase name
    queued := c.queued ++ [setCookie name (value.getD "")] }

/-- `set` for the session. -/
def setSession (c : Credentials) (value : Option String) : Credentials :=
  c.set sessionName value

/-! ## 3. Laws -/

/-- A value that was set is read back. -/
@[simp] theorem get?_set_some (c : Credentials) (name value : String) :
    (c.set name (some value)).get? name = some value := by
  simp [get?, set]

/-- A name that was cleared has no value. -/
@[simp] theorem get?_set_none (c : Credentials) (name : String) :
    (c.set name none).get? name = none := by
  simp [get?, set]

/-- A change of one name leaves every other. -/
theorem get?_set_of_ne (c : Credentials) (name other : String) (value : Option String)
    (h : other ≠ name) : (c.set name value).get? other = c.get? other := by
  cases value with
  | none => exact Entries.get?_erase_of_ne c.values name other h
  | some v => exact Entries.get?_put_of_ne c.values name other v h

/-- Every change queues one header, behind those before it. -/
@[simp] theorem queued_set (c : Credentials) (name : String) (value : Option String) :
    (c.set name value).queued = c.queued ++ [setCookie name (value.getD "")] := rfl

end Credentials

end WireContract.Service
