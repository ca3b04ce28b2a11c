import WireContract.Text.Cut

/-!
# Patterns of names

A pattern is written with `?` for any character, `*` for any characters, `[…]` for one of some
characters and `[!…]` for one that is none of them. `**` stands for any directories one below the
other; it must be a whole step of a path.

* `tokens`: the tokens of a written pattern, or where it is wrong;
* `accepts`: whether a text has the form of a pattern.
-/

namespace WireContract.Command.Pattern

/-- Some characters: one, or all between two. -/
inductive Span where
  | one (c : Char)
  | range (low high : Char)
  deriving DecidableEq, Repr

/-- Whether a character is among those. -/
def Span.holds : Span → Char → Bool
  | .one a, c => a == c
  | .range low high, c => decide (low ≤ c) && decide (c ≤ high)

/-- A part of a pattern. -/
inductive Token where
  | char (c : Char)
  | anyChar
  | within (spans : List Span)
  | without (spans : List Span)
  | anyText
  | anyDirectories
  deriving DecidableEq, Repr

/-- What is wrong with a written pattern. -/
inductive Cause where
  | wildcards
  | partOfStep
  | range
  deriving DecidableEq, Repr

/-- A fault of a pattern, so many characters into it. -/
structure Fault where
  cause : Cause
  position : Nat
  deriving DecidableEq, Repr

/-- The words for a fault. -/
def Fault.message (f : Fault) : String :=
  "Pattern syntax error near position " ++ toString f.position ++ ": " ++
    match f.cause with
    | .wildcards => "wildcards are either regular `*` or recursive `**`"
    | .partOfStep => "recursive wildcards must form a single path component"
    | .range => "invalid range pattern"

/-! ## 1. Reading -/

/-- The characters between brackets. -/
def spans : List Char → List Span
  | low :: '-' :: high :: rest => .range low high :: spans rest
  | c :: rest => .one c :: spans rest
  | [] => []

/-- The set behind an opening bracket, what follows it, and the number of characters it takes with
    its brackets. A closing bracket right at the start belongs to the set. -/
def readSet : List Char → Option (Token × List Char × Nat)
  | [] => none
  | '!' :: [] => none
  | '!' :: first :: rest =>
    (Text.cutAt ']' rest).map fun (inside, behind) =>
      (.without (spans (first :: inside)), behind, inside.length + 4)
  | first :: rest =>
    (Text.cutAt ']' rest).map fun (inside, behind) =>
      (.within (spans (first :: inside)), behind, inside.length + 3)

/-- The tokens of a pattern from a character on, with the character in front of it and its place.
    `fuel` bounds the characters left. -/
def tokensFrom : Nat → Option Char → Nat → List Char → Except Fault (List Token)
  | 0, _, _, _ => .ok []
  | _, _, _, [] => .ok []
  | fuel + 1, before, place, c :: rest =>
    if c = '?' then (tokensFrom fuel (some c) (place + 1) rest).map (Token.anyChar :: ·)
    else if c = '*' then
      let behind := rest.dropWhile (· == '*')
      match (rest.takeWhile (· == '*')).length with
      | 0 => (tokensFrom fuel (some c) (place + 1) rest).map (Token.anyText :: ·)
      | 1 =>
        if before.all (· == '/') then
          match behind with
          | [] => .ok [.anyDirectories]
          | next :: behind =>
            if next = '/' then
              (tokensFrom fuel (some next) (place + 3) behind).map (Token.anyDirectories :: ·)
            else .error ⟨.partOfStep, place + 2⟩
        else .error ⟨.partOfStep, place - 1⟩
      | _ => .error ⟨.wildcards, place + 2⟩
    else if c = '[' then
      match readSet rest with
      | some (set, behind, length) =>
        (tokensFrom fuel (some ']') (place + length) behind).map (set :: ·)
      | none => .error ⟨.range, place⟩
    else (tokensFrom fuel (some c) (place + 1) rest).map (Token.char c :: ·)

/-- The tokens of a pattern. -/
def tokens (pattern : List Char) : Except Fault (List Token) :=
  tokensFrom (pattern.length + 1) none 0 pattern

/-! ## 2. Matching -/

/-- Whether a token for one character takes it. -/
def Token.takes : Token → Char → Bool
  | .char a, c => a == c
  | .anyChar, _ => true
  | .within spans, c => spans.any (·.holds c)
  | .without spans, c => !spans.any (·.holds c)
  | .anyText, _ => false
  | .anyDirectories, _ => false

/-- Whether a token stands for any number of characters. -/
def Token.isOpen : Token → Bool
  | .anyText => true
  | .anyDirectories => true
  | _ => false

/-- One more token in front: whether a text, each of its rests, and the empty text at last have the
    form, told from the same of the tokens behind. -/
def inFront (t : Token) : List Char → List Bool → List Bool
  | c :: cs, here :: further =>
    let later := inFront t cs further
    (if t.isOpen then here || later.headD false else t.takes c && further.headD false) :: later
  | _, behind => [t.isOpen && behind.headD false]

/-- Whether a text, each of its rests, and the empty text at last have the form of a pattern. -/
def acceptsRests : List Token → List Char → List Bool
  | [], cs => List.replicate cs.length false ++ [true]
  | t :: tokens, cs => inFront t cs (acceptsRests tokens cs)

/-- Whether a text has the form of a pattern. -/
def accepts (tokens : List Token) (cs : List Char) : Bool := (acceptsRests tokens cs).headD false

theorem acceptsRests_cons (tokens : List Token) (c : Char) (cs : List Char) :
    acceptsRests tokens (c :: cs) = accepts tokens (c :: cs) :: acceptsRests tokens cs := by
  induction tokens with
  | nil => simp [accepts, acceptsRests, List.replicate_succ]
  | cons t tokens ih =>
    show inFront t (c :: cs) (acceptsRests tokens (c :: cs)) =
      (inFront t (c :: cs) (acceptsRests tokens (c :: cs))).headD false ::
        inFront t cs (acceptsRests tokens cs)
    rw [ih]
    rfl

/-- No tokens, no text. -/
theorem accepts_nil (cs : List Char) : accepts [] cs = cs.isEmpty := by
  cases cs <;> simp [accepts, acceptsRests, List.replicate_succ]

/-- At the end of a text only open tokens are left. -/
theorem accepts_cons_nil (t : Token) (tokens : List Token) :
    accepts (t :: tokens) [] = (t.isOpen && accepts tokens []) := by
  simp [accepts, acceptsRests, inFront]

/-- An open token ends in front of a character or takes it; any other takes that one alone. -/
theorem accepts_cons_cons (t : Token) (tokens : List Token) (c : Char) (cs : List Char) :
    accepts (t :: tokens) (c :: cs) =
      if t.isOpen then accepts tokens (c :: cs) || accepts (t :: tokens) cs
      else t.takes c && accepts tokens cs := by
  show (inFront t (c :: cs) (acceptsRests tokens (c :: cs))).headD false = _
  rw [acceptsRests_cons]
  rfl

/-- The text that a pattern without wildcards stands for. -/
def fixedText? : List Token → Option (List Char)
  | [] => some []
  | .char c :: rest => (fixedText? rest).map (c :: ·)
  | _ :: _ => none

end WireContract.Command.Pattern
