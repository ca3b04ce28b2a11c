/-!
# Positions in a text

A place in a text of bytes is named by its line, counted from 1, and its column: the number of
bytes of that line up to the place.
-/

namespace WireContract.Text

/-- A line and a column of a text. -/
structure Position where
  line : Nat
  column : Nat
  deriving DecidableEq, Repr

/-- The line feed, which ends a line. -/
def lineFeed : UInt8 := 0x0A

/-- The position behind the first `offset` bytes of the text. -/
def Position.behind (text : List UInt8) (offset : Nat) : Position :=
  let read := text.take offset
  { line := 1 + read.count lineFeed
    column := (read.reverse.takeWhile (· != lineFeed)).length }

/-- The words in which messages name a position. -/
def Position.describe (p : Position) : String :=
  "line " ++ toString p.line ++ " column " ++ toString p.column

end WireContract.Text
