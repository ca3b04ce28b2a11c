import WireContract.Json.Basic
import WireContract.Binary64.Shortest

/-!
# Writing JSON values

The compact form: no white space, members in their own order. In a string only the quote, the
backslash and the characters below U+0020 are escaped. A floating-point number has the fewest
digits that read back; it is written positionally, with a digit on both sides of the point, when
the power of ten of its leading digit is from -5 to 15, and otherwise with a signed exponent.
-/

namespace WireContract.Json

open Binary64 (Decimal shortest)

/-! ## 1. Strings -/

/-- A digit of the base sixteen, as a small letter beyond nine. -/
def hexDigit (n : Nat) : Char :=
  if n < 10 then Char.ofNat ('0'.toNat + n) else Char.ofNat ('a'.toNat + (n - 10))

/-- How one character stands inside a quoted string. -/
def escaped (c : Char) : List Char :=
  if c = '"' then ['\\', '"']
  else if c = '\\' then ['\\', '\\']
  else if c = '\x08' then ['\\', 'b']
  else if c = '\x0c' then ['\\', 'f']
  else if c = '\n' then ['\\', 'n']
  else if c = '\r' then ['\\', 'r']
  else if c = '\t' then ['\\', 't']
  else if c.toNat < 0x20 then
    ['\\', 'u', '0', '0', hexDigit (c.toNat / 16), hexDigit (c.toNat % 16)]
  else [c]

/-- The characters of a quoted string. -/
def quotedChars (cs : List Char) : List Char :=
  '"' :: (cs.flatMap escaped ++ ['"'])

/-- A text as a JSON string. -/
def quoted (s : String) : String :=
  String.ofList (quotedChars s.toList)

/-! ## 2. Numbers -/

/-- Digits with a point behind the first `n` of them, filled up with zeros on either side so that
    a digit stands before and behind the point. -/
def withPoint (digits : List Char) (n : Nat) : List Char :=
  let whole := (digits ++ List.replicate n '0').take n
  let fraction := digits.drop n
  (if whole.isEmpty then ['0'] else whole) ++ '.' :: (if fraction.isEmpty then ['0'] else fraction)

/-- A positive decimal: positionally between 10 to the -5 and 10 to the 16, else with an exponent
    that always has a sign. -/
def decimalChars (d : Decimal) : List Char :=
  if -5 ≤ d.power ∧ d.power < 16 then
    if 0 ≤ d.power then withPoint d.digits (d.power.toNat + 1)
    else withPoint (List.replicate (d.power.natAbs - 1) '0' ++ d.digits) 0
  else
    let fraction := d.digits.drop 1
    let mantissa := d.digits.take 1 ++ (if fraction.isEmpty then [] else '.' :: fraction)
    mantissa ++ 'e' :: (if d.power < 0 then '-' else '+') :: Nat.toDigits 10 d.power.natAbs

/-- A floating-point number. -/
def floatChars (x : Binary64) : List Char :=
  (if x.negative then ['-'] else []) ++
    (if x.magnitude = 0 then ['0', '.', '0'] else decimalChars (shortest x.magnitude))

/-- A number as JSON text. -/
def Number.render : Json.Number → String
  | .integer i => toString i
  | .float x => String.ofList (floatChars x)

/-! ## 3. Values -/

mutual

/-- A value as compact JSON text. -/
def render : Json → String
  | .null => "null"
  | .bool true => "true"
  | .bool false => "false"
  | .number n => n.render
  | .string s => quoted s
  | .array [] => "[]"
  | .array (item :: rest) => "[" ++ render item ++ renderItems rest ++ "]"
  | .object [] => "\x7b\x7d"
  | .object ((key, value) :: rest) =>
    "\x7b" ++ quoted key ++ ":" ++ render value ++ renderMembers rest ++ "\x7d"

/-- The items behind the first, each with its comma. -/
def renderItems : List Json → String
  | [] => ""
  | item :: rest => "," ++ render item ++ renderItems rest

/-- The members behind the first, each with its comma. -/
def renderMembers : List (String × Json) → String
  | [] => ""
  | (key, value) :: rest => "," ++ quoted key ++ ":" ++ render value ++ renderMembers rest

end

end WireContract.Json
