/-!
# Identifiers

The names that generated code writes bare: type names, generic parameters, enum members and
procedure names. An identifier is a letter, `_` or `$`, followed by any number of those and of
digits. Letters and digits are the ASCII ones -- every other character makes a name unfit.
-/

namespace WireContract.Text

/-- What an identifier may start with. -/
def isIdentifierStart (c : Char) : Bool :=
  c.isAlpha || c == '_' || c == '$'

/-- What may follow the first character of an identifier. -/
def isIdentifierPart (c : Char) : Bool :=
  isIdentifierStart c || c.isDigit

/-- The identifier rule on characters; the empty text is none. -/
def isIdentifierChars : List Char → Bool
  | [] => false
  | c :: rest => isIdentifierStart c && rest.all isIdentifierPart

/-- Whether `name` can be written bare in generated code. The WHOLE text counts: a final line
    break is a character like any other. -/
def isIdentifier (name : String) : Bool :=
  isIdentifierChars name.toList

end WireContract.Text
