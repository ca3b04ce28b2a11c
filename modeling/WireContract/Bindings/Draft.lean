import WireContract.Json.Printer
import WireContract.Text.Blank
import WireContract.Type.Fault
import WireContract.Type.Basic

/-!
# Drafts: text under construction

A draft is a piece of generated text together with the definitions it mentions, in the order in
which they are written, and the fault that ended it, if one did. Drafts are put one behind the
other with `++`; behind a fault nothing is added, so that a draft with a fault holds exactly what
was written up to it.

* `append_assoc`: it does not matter in which order drafts are put together;
* `append_of_fault`: nothing follows a fault;
* `append_text`, `exists_append_text`: what is written stays.
-/

namespace WireContract.Bindings

/-- A piece of generated text. -/
structure Draft where
  text : String := ""
  mentions : List DefId := []
  fault : Option SchemaFault := none
  deriving Repr

namespace Draft

/-- Nothing written yet. -/
def empty : Draft := {}

/-- Text without mentions. -/
def write (text : String) : Draft := { text }

/-- A mention of a definition; it writes nothing. -/
def mention (id : DefId) : Draft := { mentions := [id] }

/-- The end of a draft that cannot be written. -/
def fail (fault : SchemaFault) : Draft := { fault := some fault }

/-- One draft behind another. -/
def append (a b : Draft) : Draft :=
  match a.fault with
  | some _ => a
  | none => { text := a.text ++ b.text, mentions := a.mentions ++ b.mentions, fault := b.fault }

instance : Append Draft := ⟨append⟩

/-- The drafts behind a first one, each with the separator in front. -/
def separated (separator : String) : List Draft → Draft
  | [] => empty
  | d :: rest => write separator ++ d ++ separated separator rest

/-- Drafts with a separator between consecutive ones only. -/
def joined (separator : String) : List Draft → Draft
  | [] => empty
  | d :: rest => d ++ separated separator rest

/-- Drafts one behind the other. -/
def concat : List Draft → Draft
  | [] => empty
  | d :: rest => d ++ concat rest

/-- The text of a draft that came to its end. -/
def finished (d : Draft) : Except SchemaFault String :=
  match d.fault with
  | some fault => .error fault
  | none => .ok d.text

/-! ## 1. Laws -/

theorem append_def (a b : Draft) : a ++ b = append a b := rfl

theorem append_of_fault (a b : Draft) (fault : SchemaFault) (h : a.fault = some fault) :
    a ++ b = a := by
  simp [append_def, append, h]

theorem append_text {a : Draft} (h : a.fault = none) (b : Draft) :
    (a ++ b).text = a.text ++ b.text := by
  simp [append_def, append, h]

/-- What is written stays, whatever follows. -/
theorem exists_append_text (a b : Draft) : ∃ rest, (a ++ b).text = a.text ++ rest := by
  cases h : a.fault with
  | some fault => exact ⟨"", by rw [append_of_fault a b fault h, String.append_empty]⟩
  | none => exact ⟨b.text, append_text h b⟩

@[simp] theorem empty_append (d : Draft) : empty ++ d = d := by
  simp [append_def, append, empty]

theorem append_assoc (a b c : Draft) : a ++ b ++ c = a ++ (b ++ c) := by
  simp only [append_def, append]
  cases a with
  | mk at' am af =>
    cases af with
    | some f => simp
    | none =>
      cases b with
      | mk bt bm bf => cases bf <;> simp [String.append_assoc, List.append_assoc]

/-! ## 2. Literals -/

/-- A literal value. Only values without parts can be written as one. -/
def literal (v : Json) : Draft :=
  match v with
  | .array _ => fail (.unsupportedLiteral v.render)
  | .object _ => fail (.unsupportedLiteral v.render)
  | v => write v.render

/-! ## 3. Comments -/

/-- The text in which no comment can end: every star in front of a slash gets a backslash between
    the two. -/
def keptOpen : List Char → List Char
  | '*' :: '/' :: rest => '*' :: '\\' :: '/' :: keptOpen rest
  | c :: rest => c :: keptOpen rest
  | [] => []

/-- The lines of a comment: trimmed as a whole and one by one. -/
def commentLines (doc : String) : List (List Char) :=
  (Text.lines (keptOpen (Text.trim doc.toList))).map Text.trim

/-- One inner line of a comment of several lines. -/
def commentLine (indent line : List Char) : List Char :=
  indent ++ (if line.isEmpty then [' ', '*'] else [' ', '*', ' '] ++ line) ++ ['\n']

/-- A comment, on lines of its own. Nothing is written for a text without a line. -/
def commentChars (indent : List Char) : List (List Char) → List Char
  | [] => []
  | [line] => indent ++ ['/', '*', '*', ' '] ++ line ++ [' ', '*', '/', '\n']
  | lines =>
    indent ++ ['/', '*', '*', '\n'] ++ lines.flatMap (commentLine indent) ++
      indent ++ [' ', '*', '/', '\n']

/-- The comment of a documented item; nothing when the documentation is missing or blank. -/
def comment (doc : Option String) (indent : String) : Draft :=
  match doc with
  | none => empty
  | some doc => write (String.ofList (commentChars indent.toList (commentLines doc)))

end Draft

end WireContract.Bindings
