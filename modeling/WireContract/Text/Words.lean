/-!
# Words and camel case

A name is cut into words at every character that is neither letter nor digit, and inside a piece
at changes of case: before a capital that follows a small letter, and before the last capital of
a run when a small letter follows it. Digits have no case and continue what stands before them.
`upperCamel` writes the words with a capital each and joins them.

The rules are for ASCII names, which is what names that pass the identifier check are.
-/

namespace WireContract.Text

/-- The case of the letters read last, inside one word. -/
inductive Run where
  | none
  | small
  | capital
  deriving DecidableEq, Repr

/-- The run after one more character; a digit keeps the run. -/
def Run.after (run : Run) (c : Char) : Run :=
  if c.isLower then .small else if c.isUpper then .capital else run

/-- The words of one piece. `word` holds the characters of the word being read, last one first. -/
def wordsFrom (run : Run) (word : List Char) : List Char → List (List Char)
  | [] => if word.isEmpty then [] else [word.reverse]
  | [c] => [(c :: word).reverse]
  | c :: next :: rest =>
    if run.after c = .small ∧ next.isUpper then
      (c :: word).reverse :: wordsFrom .none [] (next :: rest)
    else if run = .capital ∧ c.isUpper ∧ next.isLower then
      word.reverse :: wordsFrom .none [c] (next :: rest)
    else
      wordsFrom (run.after c) (c :: word) (next :: rest)

/-- The pieces between the characters that are neither letter nor digit; some may be empty. -/
def pieces : List Char → List (List Char)
  | [] => [[]]
  | c :: rest =>
    if c.isAlphanum then
      match pieces rest with
      | [] => [[c]]
      | piece :: more => (c :: piece) :: more
    else [] :: pieces rest

/-- The words of a name. -/
def words (name : List Char) : List (List Char) :=
  (pieces name).flatMap (wordsFrom .none [])

/-- The word with its first letter as a capital and the others small. -/
def capitalized : List Char → List Char
  | [] => []
  | c :: rest => c.toUpper :: rest.map Char.toLower

/-- The words of the name, each with a capital, joined without a separator. -/
def upperCamel (name : String) : String :=
  String.ofList ((words name.toList).flatMap capitalized)

end WireContract.Text
