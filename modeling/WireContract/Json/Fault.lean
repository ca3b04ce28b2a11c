import WireContract.Text.Position

/-!
# Faults of a JSON text

What can be wrong with a text, and where: `Fault` names the place by the number of bytes in front
of it, `SyntaxError` by line and column, in the words of a message.
-/

namespace WireContract.Json

/-- What is wrong with a text. -/
inductive Cause where
  | endInList
  | endInObject
  | endInString
  | endInValue
  | noColon
  | noCommaOrBracket
  | noCommaOrBrace
  | badIdent
  | noValue
  | badEscape
  | badNumber
  | outOfRange
  | badUnicode
  | controlCharacter
  | keyNotString
  | loneSurrogate
  | endOfHexEscape
  | trailingComma
  | trailingCharacters
  | tooDeep
  deriving DecidableEq, Repr

/-- The words for a cause. -/
def Cause.message : Cause → String
  | .endInList => "EOF while parsing a list"
  | .endInObject => "EOF while parsing an object"
  | .endInString => "EOF while parsing a string"
  | .endInValue => "EOF while parsing a value"
  | .noColon => "expected `:`"
  | .noCommaOrBracket => "expected `,` or `]`"
  | .noCommaOrBrace => "expected `,` or `\x7d`"
  | .badIdent => "expected ident"
  | .noValue => "expected value"
  | .badEscape => "invalid escape"
  | .badNumber => "invalid number"
  | .outOfRange => "number out of range"
  | .badUnicode => "invalid unicode code point"
  | .controlCharacter => "control character (\\u0000-\\u001F) found while parsing a string"
  | .keyNotString => "key must be a string"
  | .loneSurrogate => "lone leading surrogate in hex escape"
  | .endOfHexEscape => "unexpected end of hex escape"
  | .trailingComma => "trailing comma"
  | .trailingCharacters => "trailing characters"
  | .tooDeep => "recursion limit exceeded"

/-- A fault of a text, `offset` bytes into it. -/
structure Fault where
  cause : Cause
  offset : Nat
  deriving DecidableEq, Repr

/-- A fault with its place in the words of a message. -/
structure SyntaxError where
  cause : Cause
  position : Text.Position
  deriving DecidableEq, Repr

/-- The fault of that text as an error. -/
def Fault.inText (f : Fault) (text : List UInt8) : SyntaxError :=
  ⟨f.cause, .behind text f.offset⟩

/-- The text of an error. -/
def SyntaxError.message (e : SyntaxError) : String :=
  e.cause.message ++ " at " ++ e.position.describe

end WireContract.Json
