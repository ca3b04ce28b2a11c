import WireContract.Proofs.Bindings.Tokens
import WireContract.Proofs.Json.ScalarText

/-!
# Tokens by their text

Where names are identifiers and no words of the language, the text of a token tells which token it
is: a number and a quoted text are no identifiers, and among identifiers the words of the language,
the definitions and the type parameters keep apart.

* `Legible`: what is asked of the names and the values in a row of expressions;
* `Legible.isWord`: every token but the punctuation is written as one word;
* `Legible.eq_of_text`: and no two with the same one.
-/

namespace WireContract.Bindings

open Json (IsRun IsWord)
open Text (isIdentifier)

/-- The words that type expressions are written with, whatever definitions there are. -/
def reservedWords : List String :=
  ["null", "boolean", "number", "string", "any", "undefined", "true", "false", "Record"]

/-- Whether the names and the values in expressions can be told from each other by their text. The
    expressions are given with all their parts. -/
structure Legible (types : TypeTable) (parts : List Ty) : Prop where
  /-- The names of the table are identifiers, each given once. -/
  built : types.Built
  names : ∀ name ∈ types.names, name ∉ reservedWords
  parameters : ∀ name, Ty.generic name ∈ parts →
    isIdentifier name = true ∧ name ∉ reservedWords ∧ name ∉ types.names
  /-- Values are told from each other by their text; null is the value of a type of its own. -/
  printing : ∀ v w, (Token.literal v).StandsIn parts → (Token.literal w).StandsIn parts →
    v.render = w.render → v = w

/-- Whether a token stands for a name that the table or a definition gives. -/
def Token.IsName : Token → Prop
  | .parameter _ => True
  | .reference _ _ => True
  | _ => False

/-- Whether a token is punctuation. -/
def Token.IsMark : Token → Prop
  | .mark _ => True
  | _ => False

theorem Keyword.text_mem (k : Keyword) : k.text ∈ reservedWords := by cases k <;> decide

theorem Keyword.isIdentifier_text (k : Keyword) : isIdentifier k.text = true := by
  cases k <;> decide

theorem Keyword.eq_of_text {k l : Keyword} (h : k.text = l.text) : k = l := by
  cases k <;> cases l <;> first | rfl | exact absurd h (by decide)

section Legible

variable {types : TypeTable} {parts : List Ty} (h : Legible types parts)
  (hsound : ∀ part ∈ parts, part.FitsTable types)

include hsound in
theorem isScalar_of_standsIn {v : Json} (hv : (Token.literal v).StandsIn parts) : v.IsScalar := by
  rcases hv with rfl | ⟨values, hpart, hv⟩
  · trivial
  · exact (hsound _ hpart).2 v hv

include hsound in
theorem exists_get_of_standsIn {target : DefId} {count : Nat}
    (ht : (Token.reference target count).StandsIn parts) :
    ∃ body, types.get target = .ok body ∧ count = body.generics.length := by
  obtain ⟨args, hpart, rfl⟩ := ht
  exact hsound _ hpart

theorem nameOf_mem_names {target : DefId} {body : Definition}
    (hbody : types.get target = .ok body) : types.nameOf target ∈ types.names := by
  rw [TypeTable.nameOf_of_get hbody]
  exact List.mem_of_getElem? (TypeTable.getElem?_names_of_get hbody)

include hsound in
/-- A word of the language is never written like a value. -/
theorem keyword_ne_literal {k : Keyword} {v : Json} (hv : (Token.literal v).StandsIn parts) :
    k.text ≠ v.render := by
  intro heq
  have hident := k.isIdentifier_text
  rw [heq] at hident
  have hmem := Json.render_mem_of_isIdentifier (isScalar_of_standsIn hsound hv) hident
  rw [← heq] at hmem
  revert hmem
  cases k <;> decide

include h hsound

/-- A name is an identifier and no word of the language. -/
theorem Legible.isIdentifier_text {t : Token} (ht : t.StandsIn parts) (hname : t.IsName) :
    isIdentifier (t.text types) = true ∧ t.text types ∉ reservedWords := by
  cases t with
  | parameter name =>
    obtain ⟨hident, hreserved, -⟩ := h.parameters name ht
    exact ⟨hident, hreserved⟩
  | reference target count =>
    obtain ⟨body, hbody, -⟩ := exists_get_of_standsIn hsound ht
    have hmem := nameOf_mem_names hbody
    exact ⟨h.built.isIdentifier _ hmem, h.names _ hmem⟩
  | _ => exact hname.elim

/-- **Every token but the punctuation is written as one word.** -/
theorem Legible.isWord {t : Token} (ht : t.StandsIn parts) (hmark : ¬ t.IsMark) :
    IsWord (t.text types).toList := by
  cases t with
  | mark m => exact absurd trivial hmark
  | keyword k => exact .inl (Json.isRun_of_isIdentifier k.isIdentifier_text)
  | literal v => exact Json.isWord_render (isScalar_of_standsIn hsound ht)
  | parameter name =>
    exact .inl (Json.isRun_of_isIdentifier (h.isIdentifier_text hsound ht trivial).1)
  | reference target count =>
    exact .inl (Json.isRun_of_isIdentifier (h.isIdentifier_text hsound ht trivial).1)

/-- A value is never written like a name. -/
theorem Legible.literal_ne_name {v : Json} {t : Token} (hv : (Token.literal v).StandsIn parts)
    (ht : t.StandsIn parts) (hname : t.IsName) : v.render ≠ t.text types := by
  intro heq
  obtain ⟨hident, hreserved⟩ := h.isIdentifier_text hsound ht hname
  rw [← heq] at hident hreserved
  have hsub : ["null", "true", "false"] ⊆ reservedWords := by decide
  exact hreserved (hsub (Json.render_mem_of_isIdentifier (isScalar_of_standsIn hsound hv) hident))

/-- A word of the language is never written like a name. -/
theorem Legible.keyword_ne_name {k : Keyword} {t : Token} (ht : t.StandsIn parts)
    (hname : t.IsName) : k.text ≠ t.text types :=
  fun heq => (h.isIdentifier_text hsound ht hname).2 (heq ▸ k.text_mem)

/-- A type parameter is never written like a definition. -/
theorem Legible.parameter_ne_reference {name : String} {target : DefId} {count : Nat}
    (hp : (Token.parameter name).StandsIn parts)
    (hr : (Token.reference target count).StandsIn parts) : name ≠ types.nameOf target := by
  intro heq
  obtain ⟨body, hbody, -⟩ := exists_get_of_standsIn hsound hr
  exact (h.parameters name hp).2.2 (heq ▸ nameOf_mem_names hbody)

/-- **No two tokens but the punctuation have the same text.** -/
theorem Legible.eq_of_text {t u : Token} (ht : t.StandsIn parts) (hu : u.StandsIn parts)
    (htm : ¬ t.IsMark) (hum : ¬ u.IsMark) (heq : t.text types = u.text types) :
    t = u := by
  cases t with
  | mark m => exact absurd trivial htm
  | keyword k =>
    cases u with
    | mark m => exact absurd trivial hum
    | keyword l => rw [Keyword.eq_of_text heq]
    | literal v => exact absurd heq (keyword_ne_literal hsound hu)
    | parameter name => exact absurd heq (h.keyword_ne_name hsound hu trivial)
    | reference target count =>
      exact absurd heq (h.keyword_ne_name hsound hu trivial)
  | literal v =>
    cases u with
    | mark m => exact absurd trivial hum
    | keyword l => exact absurd heq.symm (keyword_ne_literal hsound ht)
    | literal w => rw [h.printing v w ht hu heq]
    | parameter name => exact absurd heq (h.literal_ne_name hsound ht hu trivial)
    | reference target count =>
      exact absurd heq (h.literal_ne_name hsound ht hu trivial)
  | parameter name =>
    cases u with
    | mark m => exact absurd trivial hum
    | keyword l => exact absurd heq.symm (h.keyword_ne_name hsound ht trivial)
    | literal w => exact absurd heq.symm (h.literal_ne_name hsound hu ht trivial)
    | parameter other => exact congrArg Token.parameter heq
    | reference target count => exact absurd heq (h.parameter_ne_reference hsound ht hu)
  | reference target count =>
    cases u with
    | mark m => exact absurd trivial hum
    | keyword l =>
      exact absurd heq.symm (h.keyword_ne_name hsound ht trivial)
    | literal w =>
      exact absurd heq.symm (h.literal_ne_name hsound hu ht trivial)
    | parameter name => exact absurd heq.symm (h.parameter_ne_reference hsound hu ht)
    | reference other number =>
      obtain ⟨body, hbody, rfl⟩ := exists_get_of_standsIn hsound ht
      obtain ⟨found, hfound, rfl⟩ := exists_get_of_standsIn hsound hu
      obtain rfl := TypeTable.eq_of_nameOf_eq h.built.nodup_names hbody hfound heq
      obtain rfl := Except.ok.inj (hbody.symm.trans hfound)
      rfl

end Legible

end WireContract.Bindings
