import WireContract.Binary64.Decimal
import WireContract.Json.Document

/-!
# Reading JSON texts

A text is a list of bytes. The reader turns it into a document and stops at the first fault; two
conventions tell at which offset a fault lies. A fault found in bytes already taken lies behind
the last byte taken; a fault found by looking at the next byte lies behind that byte, or at the
end of the text when there is none (`Cursor.peeked`). Only bytes that make no characters have a
place of their own (`readString`).

* `readDocument`: the document a text starts with, and what follows it;
* `read`: the value of a text that holds nothing else.

Arrays and objects are read to a depth that the caller gives; the recursion is on that depth, and
inside an array, an object or a string on fuel, of which there is more than the text has bytes.
-/

namespace WireContract.Json

/-! ## 1. Cursors -/

/-- A place in a text: the bytes behind it and the number of bytes in front of it. -/
structure Cursor where
  rest : List UInt8
  offset : Nat
  deriving Repr

namespace Cursor

/-- The start of a text. -/
def start (text : List UInt8) : Cursor := ⟨text, 0⟩

/-- The place `n` bytes further on. -/
def advance (c : Cursor) (n : Nat) : Cursor := ⟨c.rest.drop n, c.offset + n⟩

/-- The offset behind the next byte, or the end of the text. -/
def peeked (c : Cursor) : Nat :=
  if c.rest.isEmpty then c.offset else c.offset + 1

/-- A fault behind what was taken. -/
def fault (c : Cursor) (cause : Cause) : Fault := ⟨cause, c.offset⟩

/-- A fault of the next byte. -/
def peekFault (c : Cursor) (cause : Cause) : Fault := ⟨cause, c.peeked⟩

end Cursor

/-- The byte of an ASCII character. -/
def byte (c : Char) : UInt8 := c.toNat.toUInt8

/-- The four bytes that may stand between the parts of a text. -/
def isSpace (b : UInt8) : Bool :=
  b == byte ' ' || b == byte '\n' || b == byte '\t' || b == byte '\r'

/-- The next place that is not white space. -/
def Cursor.skipSpace (c : Cursor) : Cursor :=
  c.advance (c.rest.takeWhile isSpace).length

def isDigitByte (b : UInt8) : Bool :=
  byte '0' ≤ b && b ≤ byte '9'

/-- The value of a digit. -/
def digitOf (b : UInt8) : Nat := b.toNat - (byte '0').toNat

/-! ## 2. Strings -/

/-- The value of a digit of the base sixteen. -/
def hexValue? (b : UInt8) : Option Nat :=
  if isDigitByte b then some (digitOf b)
  else if byte 'a' ≤ b && b ≤ byte 'f' then some (b.toNat - (byte 'a').toNat + 10)
  else if byte 'A' ≤ b && b ≤ byte 'F' then some (b.toNat - (byte 'A').toNat + 10)
  else none

/-- The number that four digits of the base sixteen make. -/
def readHex4 (c : Cursor) : Except Fault (Nat × Cursor) :=
  match c.rest with
  | a :: b :: d :: e :: _ =>
    let after := c.advance 4
    match hexValue? a, hexValue? b, hexValue? d, hexValue? e with
    | some a, some b, some d, some e => .ok (((a * 16 + b) * 16 + d) * 16 + e, after)
    | _, _, _, _ => .error (after.fault .badEscape)
  | short => .error ⟨.endInString, c.offset + short.length⟩

/-- The byte that must come next inside an escape; the cursor behind it. -/
def expectInEscape (b : UInt8) (c : Cursor) : Except Fault Cursor :=
  match c.rest with
  | [] => .error (c.fault .endInString)
  | x :: _ => if x = b then .ok (c.advance 1) else .error ((c.advance 1).fault .endOfHexEscape)

/-- The character an escape with hexadecimal digits stands for. A leading surrogate must be
    followed by the escape of a trailing one; the two make one character. -/
def readUnicodeEscape (c : Cursor) : Except Fault (Nat × Cursor) := do
  let (n, c) ← readHex4 c
  if 0xDC00 ≤ n ∧ n ≤ 0xDFFF then
    throw (c.fault .loneSurrogate)
  else if 0xD800 ≤ n ∧ n ≤ 0xDBFF then
    let c ← expectInEscape (byte '\\') c
    let c ← expectInEscape (byte 'u') c
    let (m, c) ← readHex4 c
    if 0xDC00 ≤ m ∧ m ≤ 0xDFFF then
      return (0x10000 + (n - 0xD800) * 0x400 + (m - 0xDC00), c)
    else throw (c.fault .loneSurrogate)
  else return (n, c)

/-- The bytes an escape stands for; the cursor is behind the backslash. -/
def readEscape (c : Cursor) : Except Fault (List UInt8 × Cursor) :=
  match c.rest with
  | [] => .error (c.fault .endInString)
  | b :: _ =>
    let after := c.advance 1
    if b = byte '"' ∨ b = byte '\\' ∨ b = byte '/' then .ok ([b], after)
    else if b = byte 'b' then .ok ([0x08], after)
    else if b = byte 'f' then .ok ([0x0C], after)
    else if b = byte 'n' then .ok ([0x0A], after)
    else if b = byte 'r' then .ok ([0x0D], after)
    else if b = byte 't' then .ok ([0x09], after)
    else if b = byte 'u' then do
      let (n, after) ← readUnicodeEscape after
      return (String.utf8EncodeChar (Char.ofNat n), after)
    else .error (after.fault .badEscape)

/-- The bytes of a string up to its closing quote; `taken` has those read so far, last one first.
    `fuel` bounds the bytes left. -/
def readStringBytes : Nat → List UInt8 → Cursor → Except Fault (List UInt8 × Cursor)
  | 0, _, c => .error (c.fault .endInString)
  | fuel + 1, taken, c =>
    match c.rest with
    | [] => .error (c.fault .endInString)
    | b :: _ =>
      let after := c.advance 1
      if b = byte '"' then .ok (taken.reverse, after)
      else if b = byte '\\' then
        match readEscape after with
        | .error fault => .error fault
        | .ok (bytes, after) => readStringBytes fuel (bytes.reverse ++ taken) after
      else if b < 0x20 then .error (after.fault .controlCharacter)
      else readStringBytes fuel (b :: taken) after

/-- The number of bytes in front of the first that starts no character. -/
def charactersLength : List UInt8 → Nat
  | [] => 0
  | b :: rest =>
    match ByteArray.utf8DecodeChar? ⟨((b :: rest).take 4).toArray⟩ 0 with
    | some c => c.utf8Size + charactersLength (rest.drop (c.utf8Size - 1))
    | none => 0
  termination_by bytes => bytes.length
  decreasing_by
    simp only [List.length_drop, List.length_cons]
    omega

/-- A string; the cursor is behind the opening quote, and fewer than `fuel` bytes are left. Bytes
    that make no characters are found when the string has been read, and are counted off from its
    end, an escape as the bytes it stands for. -/
def readString (fuel : Nat) (c : Cursor) : Except Fault (String × Cursor) := do
  let (bytes, after) ← readStringBytes fuel [] c
  match String.fromUTF8? ⟨bytes.toArray⟩ with
  | some s => return (s, after)
  | none => throw ⟨.badUnicode, after.offset - (bytes.length - charactersLength bytes)⟩

/-! ## 3. Numbers -/

/-- The greatest natural of 64 bits. -/
def greatestNatural : Nat := Nat.pow 2 64 - 1

/-- Digits taken up by a 64-bit natural: the natural, and the number of digits that found no more
    room -- from the first that did not fit, all. -/
def takeUp : Nat → List UInt8 → Nat × Nat
  | n, [] => (n, 0)
  | n, d :: rest =>
    let m := 10 * n + digitOf d
    if m ≤ greatestNatural then takeUp m rest else (n, rest.length + 1)

/-- A floating-point number out of its digits, if it is in range. -/
def floatAt (c : Cursor) (negative : Bool) (significand : Nat) (exponent : Int) :
    Except Fault (Json.Number × Cursor) :=
  match Binary64.ofDecimal? negative significand exponent with
  | some x => .ok (.float x, c)
  | none => .error (c.fault .outOfRange)

/-- The natural that exponent digits make, or the number of digits up to the first with which it
    leaves the 32-bit integers. -/
def exponentNatural (n read : Nat) : List UInt8 → Except Nat Nat
  | [] => .ok n
  | d :: rest =>
    let m := 10 * n + digitOf d
    if m < Nat.pow 2 31 then exponentNatural m (read + 1) rest else .error (read + 1)

/-- A number from its exponent on; the cursor is behind the letter. An exponent beyond the 32-bit
    integers makes zero, except that a positive one of a number other than zero is out of range. -/
def readExponent (negative : Bool) (significand : Nat) (exponent : Int) (c : Cursor) :
    Except Fault (Json.Number × Cursor) :=
  let (down, c) :=
    match c.rest with
    | b :: _ =>
      if b = byte '+' then (false, c.advance 1)
      else if b = byte '-' then (true, c.advance 1)
      else (false, c)
    | [] => (false, c)
  let digits := c.rest.takeWhile isDigitByte
  match c.rest with
  | [] => .error (c.fault .endInValue)
  | _ :: _ =>
    if digits.isEmpty then .error ((c.advance 1).fault .badNumber)
    else
      let after := c.advance digits.length
      match exponentNatural 0 0 digits with
      | .ok n => floatAt after negative significand (if down then exponent - n else exponent + n)
      | .error read =>
        if significand ≠ 0 ∧ !down then .error ((c.advance read).fault .outOfRange)
        else .ok (.float (.zero negative), after)

/-- Whether the cursor is at the letter of an exponent. -/
def Cursor.atExponent (c : Cursor) : Bool :=
  match c.rest with
  | b :: _ => b == byte 'e' || b == byte 'E'
  | [] => false

/-- A number from its point on; the cursor is behind the point. A digit taken up lowers the
    exponent by one, a digit without room does not count. -/
def readFraction (negative : Bool) (significand : Nat) (exponent : Int) (c : Cursor) :
    Except Fault (Json.Number × Cursor) :=
  let digits := c.rest.takeWhile isDigitByte
  if digits.isEmpty then
    .error (c.peekFault (if c.rest.isEmpty then .endInValue else .badNumber))
  else
    let (significand, dropped) := takeUp significand digits
    let exponent := exponent - (digits.length - dropped : Nat)
    let after := c.advance digits.length
    if after.atExponent then readExponent negative significand exponent (after.advance 1)
    else floatAt after negative significand exponent

/-- A number from its first digit on. Without point and exponent it is an integer if the integers
    hold it; minus zero is a floating-point number. -/
def readNumber (negative : Bool) (c : Cursor) : Except Fault (Json.Number × Cursor) :=
  match c.rest with
  | [] => .error (c.fault .endInValue)
  | first :: more =>
    if !isDigitByte first then .error ((c.advance 1).fault .badNumber)
    else if first = byte '0' ∧ (more.head?.any isDigitByte) then
      .error ((c.advance 1).peekFault .badNumber)
    else
      let digits := c.rest.takeWhile isDigitByte
      let (significand, dropped) := takeUp 0 digits
      let after := c.advance digits.length
      if after.atExponent then readExponent negative significand dropped (after.advance 1)
      else if after.rest.head? = some (byte '.') then
        readFraction negative significand dropped (after.advance 1)
      else if dropped ≠ 0 then floatAt after negative significand dropped
      else if !negative then .ok (.integer significand, after)
      else if significand = 0 ∨ Nat.pow 2 63 < significand then floatAt after true significand 0
      else .ok (.integer (-significand), after)

/-! ## 4. Values -/

/-- A document, and the place behind it if it was read to its end. -/
abbrev Reading := Document × Option Cursor

/-- A scalar or the fault in its place. -/
def scalarReading : Except Fault (Scalar × Cursor) → Reading
  | .ok (s, after) => (.scalar s after.offset, some after)
  | .error fault => (.broken fault, none)

/-- The rest of one of the words `null`, `true` and `false`. -/
def readWord (s : Scalar) : List Char → Cursor → Except Fault (Scalar × Cursor)
  | [], c => .ok (s, c)
  | letter :: more, c =>
    match c.rest with
    | [] => .error (c.fault .endInValue)
    | b :: _ =>
      if b = byte letter then readWord s more (c.advance 1)
      else .error ((c.advance 1).fault .badIdent)

/-- A value without parts; the cursor is at its first byte. -/
def readScalar (fuel : Nat) (first : UInt8) (c : Cursor) : Reading :=
  let after := c.advance 1
  scalarReading <|
    if first = byte 'n' then readWord .null ['u', 'l', 'l'] after
    else if first = byte 't' then readWord (.bool true) ['r', 'u', 'e'] after
    else if first = byte 'f' then readWord (.bool false) ['a', 'l', 's', 'e'] after
    else if first = byte '"' then (readString fuel after).map fun (s, c) => (.string s, c)
    else if first = byte '-' then (readNumber true after).map fun (n, c) => (.number n, c)
    else if isDigitByte first then (readNumber false c).map fun (n, c) => (.number n, c)
    else .error (c.peekFault .noValue)

/-- The items of an array, read with `readItem`; the cursor is behind the bracket, or behind an
    item when `first` is false. -/
def readItems (readItem : Cursor → Reading) :
    Nat → Bool → Cursor → List Document × Ending × Option Cursor
  | 0, _, c => ([], .broken (c.fault .endInList), none)
  | fuel + 1, first, c =>
    let c := c.skipSpace
    let item (c : Cursor) : List Document × Ending × Option Cursor :=
      match readItem c with
      | (d, none) => ([d], .cut, none)
      | (d, some after) =>
        let (items, ending, stop) := readItems readItem fuel false after
        (d :: items, ending, stop)
    match c.rest with
    | [] => ([], .broken (c.peekFault .endInList), none)
    | b :: _ =>
      if b = byte ']' then ([], .closed (c.offset + 1), some (c.advance 1))
      else if first then item c
      else if b = byte ',' then
        let c := (c.advance 1).skipSpace
        match c.rest with
        | [] => ([], .broken (c.peekFault .endInValue), none)
        | b :: _ =>
          if b = byte ']' then ([], .broken (c.peekFault .trailingComma), none) else item c
      else ([], .broken (c.peekFault .noCommaOrBracket), none)

/-- The members of an object, with values read by `readItem`; the cursor is behind the brace, or
    behind a member when `first` is false. -/
def readMembers (readItem : Cursor → Reading) :
    Nat → Bool → Cursor → List (String × Nat × Document) × Ending × Option Cursor
  | 0, _, c => ([], .broken (c.fault .endInObject), none)
  | fuel + 1, first, c =>
    let c := c.skipSpace
    let member (c : Cursor) : List (String × Nat × Document) × Ending × Option Cursor :=
      match readString fuel (c.advance 1) with
      | .error fault => ([], .broken fault, none)
      | .ok (key, afterKey) =>
        let colon := afterKey.skipSpace
        match colon.rest with
        | [] => ([(key, afterKey.offset, .unreached (colon.peekFault .endInObject))], .cut, none)
        | b :: _ =>
          if b = byte ':' then
            match readItem (colon.advance 1) with
            | (d, none) => ([(key, afterKey.offset, d)], .cut, none)
            | (d, some after) =>
              let (members, ending, stop) := readMembers readItem fuel false after
              ((key, afterKey.offset, d) :: members, ending, stop)
          else ([(key, afterKey.offset, .unreached (colon.peekFault .noColon))], .cut, none)
    let key (c : Cursor) : List (String × Nat × Document) × Ending × Option Cursor :=
      match c.rest with
      | [] => ([], .broken (c.peekFault .endInValue), none)
      | b :: _ =>
        if b = byte '"' then member c
        else if b = byte '\x7d' then ([], .broken (c.peekFault .trailingComma), none)
        else ([], .broken (c.peekFault .keyNotString), none)
    match c.rest with
    | [] => ([], .broken (c.peekFault .endInObject), none)
    | b :: _ =>
      if b = byte '\x7d' then ([], .closed (c.offset + 1), some (c.advance 1))
      else if first then key c
      else if b = byte ',' then key (c.advance 1).skipSpace
      else ([], .broken (c.peekFault .noCommaOrBrace), none)

/-- A value; `inner` reads the values inside an array or object, and is absent when no further
    one may be opened. Fewer than `fuel` bytes are left. -/
def readValueWith (fuel : Nat) (inner : Option (Cursor → Reading)) (c : Cursor) : Reading :=
  let c := c.skipSpace
  match c.rest with
  | [] => (.broken (c.peekFault .endInValue), none)
  | b :: _ =>
    if b = byte '[' then
      match inner with
      | none => (.broken (c.peekFault .tooDeep), none)
      | some readItem =>
        let (items, ending, stop) := readItems readItem fuel true (c.advance 1)
        (.array c.offset items ending, stop)
    else if b = byte '\x7b' then
      match inner with
      | none => (.broken (c.peekFault .tooDeep), none)
      | some readItem =>
        let (members, ending, stop) := readMembers readItem fuel true (c.advance 1)
        (.object c.offset members ending, stop)
    else readScalar fuel b c

/-- A value in which at most `depth` arrays and objects are open at a time. -/
def readValue (fuel : Nat) : Nat → Cursor → Reading
  | 0 => readValueWith fuel none
  | depth + 1 => readValueWith fuel (some (readValue fuel depth))

/-- The value at the start of a text. -/
def readFirst (depth : Nat) (text : List UInt8) : Reading :=
  readValue (text.length + 1) depth (.start text)

/-! ## 5. Texts -/

/-- The arrays and objects that may be open at a time. -/
def depthLimit : Nat := 127

/-- The document a text starts with; what follows it is not looked at. -/
def readDocument (text : List UInt8) : Document :=
  (readFirst depthLimit text).1

/-- The value of a text that holds one value, white space around it, and nothing else. -/
def readWithin (depth : Nat) (text : List UInt8) : Except SyntaxError Json :=
  let (document, stop) := readFirst depth text
  match stop with
  | none =>
    match document.fault? [] with
    | some (_, fault) => .error (fault.inText text)
    | none => .ok document.value
  | some after =>
    let rest := after.skipSpace
    if rest.rest.isEmpty then .ok document.value
    else .error ((rest.peekFault .trailingCharacters).inText text)

/-- `readWithin` at the usual depth. -/
def read (text : List UInt8) : Except SyntaxError Json :=
  readWithin depthLimit text

end WireContract.Json
