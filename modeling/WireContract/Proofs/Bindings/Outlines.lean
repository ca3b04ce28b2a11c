import WireContract.Proofs.Bindings.Blocks
import WireContract.Text.Cut

/-!
# The outline of a declaration

The text of a declaration tells what it declares: which kind of definition, under which name, with
which type parameters and which members. All this can be read off its lines, whatever stands in the
comment above it, in the names of its members and in their types.

* `Outline`, `outline`: what a declaration introduces, and how it is read off the text;
* `memberName_injective`: different members are written differently;
* `headingRow`, `rowsBelow`, `written_definitionPieces`: the lines of a declaration;
* `outline_of_written`: what is read off is the outline of the definition.
-/

namespace WireContract

namespace Bindings

open Draft
open Text (isIdentifier isIdentifierPart lines unlines)

/-! ## 1. Outlines -/

/-- What a declaration introduces: the word for its kind, its name, its type parameters and the
    names of its members. -/
structure Outline where
  keyword : String
  name : String
  generics : List String
  members : List String
  deriving DecidableEq, Repr

/-- The members as they are written. -/
def Outline.written (o : Outline) : Outline :=
  { o with members := o.members.map memberName }

/-- Whether nothing that a declaration lists is there twice. -/
structure Outline.ListsOnce (o : Outline) : Prop where
  members : o.members.Nodup
  generics : o.generics.Nodup

instance (o : Outline) : Decidable o.ListsOnce :=
  decidable_of_iff (o.members.Nodup ∧ o.generics.Nodup)
    ⟨fun h => ⟨h.1, h.2⟩, fun h => ⟨h.members, h.generics⟩⟩

/-- The type parameters at the front of a text. -/
def parametersIn : List Char → List String
  | '<' :: rest =>
    (Text.segments ',' (rest.takeWhile (· != '>'))).map fun parameter =>
      String.ofList (parameter.dropWhile (· == ' '))
  | _ => []

/-- The name at the front of a text, bare or in quotes. -/
def nameIn (cs : List Char) : String :=
  match cs with
  | '"' :: rest => String.ofList (cs.take (cs.length - (Json.behindString rest).length))
  | cs => String.ofList (cs.takeWhile isIdentifierPart)

/-- What a declaration introduces, read off its text: the first line that exports something has the
    keyword, the name and the type parameters, and every line below it but the last one a member. -/
def outline (text : String) : Outline :=
  match (lines text.toList).dropWhile fun row => !"export ".toList.isPrefixOf row with
  | [] => ⟨"", "", [], []⟩
  | heading :: rows =>
    let words := heading.drop "export ".length
    let behind := (words.dropWhile (· != ' ')).drop 1
    { keyword := String.ofList (words.takeWhile (· != ' '))
      name := String.ofList (behind.takeWhile isIdentifierPart)
      generics := parametersIn (behind.dropWhile isIdentifierPart)
      members := rows.dropLast.map fun row => nameIn (row.dropWhile (· == ' ')) }

end Bindings

/-- The word that a definition is declared with. -/
def Definition.keyword : Definition → String
  | .struct _ => "interface"
  | .enumeration _ => "enum"
  | .alias _ => "type"

/-- The names of the members; an alias has none. -/
def Definition.memberNames : Definition → List String
  | .struct s => s.fields.map (·.name)
  | .enumeration e => e.members.map (·.name)
  | .alias _ => []

/-- What a definition introduces. -/
def Definition.outline (body : Definition) : Bindings.Outline :=
  ⟨body.keyword, body.name, body.generics, body.memberNames⟩

namespace Bindings

open Draft
open Text (isIdentifier isIdentifierPart lines unlines)

/-! ## 2. Names of members -/

theorem head?_of_isIdentifier {name : String} (h : isIdentifier name = true) :
    ∃ c ∈ name.toList.head?, isIdentifierPart c = true := by
  rw [isIdentifier] at h
  cases hname : name.toList with
  | nil =>
    rw [hname] at h
    cases h
  | cons c rest =>
    exact ⟨c, rfl, Json.forall_isIdentifierPart h c (hname ▸ List.mem_cons_self)⟩

/-- A name in quotes is no identifier. -/
theorem memberName_ne_quoted {name : String} (h : isIdentifier name = true) (other : String) :
    name ≠ Json.quoted other := by
  intro heq
  obtain ⟨c, hc, hpart⟩ := head?_of_isIdentifier h
  rw [heq, Json.quoted, String.toList_ofList] at hc
  cases hc
  exact absurd hpart (by decide)

/-- **Different members are written differently.** -/
theorem memberName_injective : Function.Injective memberName := by
  intro name other heq
  rw [memberName, memberName] at heq
  split at heq
  · rename_i hname
    split at heq
    · exact heq
    · exact absurd heq (memberName_ne_quoted hname other)
  · split at heq
    · rename_i hother
      exact absurd heq.symm (memberName_ne_quoted hother name)
    · rw [Json.quoted, Json.quoted, String.ofList_inj] at heq
      exact String.toList_inj.mp (Json.quotedChars_injective heq)

/-- So members are distinct as they are written exactly if they are distinct. -/
theorem Outline.listsOnce_written_iff (o : Outline) : o.written.ListsOnce ↔ o.ListsOnce := by
  have hmembers : (o.members.map memberName).Nodup ↔ o.members.Nodup :=
    List.nodup_map_iff memberName_injective
  constructor
  · exact fun h => ⟨hmembers.mp h.members, h.generics⟩
  · exact fun h => ⟨hmembers.mpr h.members, h.generics⟩

/-! ## 3. Texts that are read up to their ends -/

/-- A member is read as it is written, if what follows does not lengthen an identifier. -/
theorem nameIn_memberName (name : String) {rest : List Char}
    (hrest : ∀ c ∈ rest.head?, isIdentifierPart c = false) :
    nameIn ((memberName name).toList ++ rest) = memberName name := by
  by_cases hident : isIdentifier name = true
  · have hbare : memberName name = name := if_pos hident
    have hparts := Json.forall_isIdentifierPart hident
    rw [hbare]
    obtain ⟨c, hc, hpart⟩ := head?_of_isIdentifier hident
    obtain ⟨others, hname⟩ := List.head?_eq_some_iff.mp hc
    have hquote : c ≠ '"' := by
      rintro rfl
      exact absurd hpart (by decide)
    rw [nameIn]
    · rw [Text.takeWhile_front hparts hrest, String.ofList_toList]
    · intro behind heq
      rw [hname] at heq
      exact hquote (List.cons.inj heq).1
  · have hquoted : memberName name = Json.quoted name := if_neg hident
    have htext : Json.quotedChars name.toList ++ rest =
        '"' :: (name.toList.flatMap Json.escaped ++ '"' :: rest) := by
      simp [Json.quotedChars]
    have htake : (Json.quotedChars name.toList ++ rest).take
        ((Json.quotedChars name.toList ++ rest).length - rest.length) =
          Json.quotedChars name.toList := by
      rw [List.length_append, Nat.add_sub_cancel, List.take_left]
    rw [hquoted, Json.quoted, String.toList_ofList, htext, nameIn,
      Json.behindString_flatMap_escaped, ← htext, htake]

/-- No identifier has a character that identifiers are not made of. -/
theorem not_mem_of_isIdentifier {name : String} (h : isIdentifier name = true) {c : Char}
    (hc : isIdentifierPart c = false) : c ∉ name.toList := by
  intro hmem
  rw [Json.forall_isIdentifierPart h c hmem] at hc
  cases hc

/-- Names with commas and blanks between them are segments, with blanks in front of all but the
    first. -/
theorem toList_intercalate_comma (name : String) (rest : List String) :
    (String.intercalate ", " (name :: rest)).toList =
      Text.joinSegments ',' (name.toList :: rest.map fun other => ' ' :: other.toList) := by
  induction rest generalizing name with
  | nil => rfl
  | cons next more ih =>
    have hjoin :
        Text.joinSegments ',' (name.toList :: (next :: more).map fun n => ' ' :: n.toList) =
          name.toList ++ ',' ::
            Text.joinSegments ',' ((' ' :: next.toList) :: more.map fun n => ' ' :: n.toList) := rfl
    rw [String.intercalate_cons_cons, String.toList_append, String.toList_append, ih next, hjoin,
      Text.joinSegments_cons_cons, List.append_assoc]
    rfl

/-- Identifiers with commas and blanks between them are cut into the same identifiers. -/
theorem map_segments_intercalate {names : List String} (hne : names ≠ [])
    (h : ∀ name ∈ names, isIdentifier name = true) :
    (Text.segments ',' (String.intercalate ", " names).toList).map
      (fun parameter => String.ofList (parameter.dropWhile (· == ' '))) = names := by
  have hcomma : ∀ name ∈ names, ',' ∉ name.toList :=
    fun name hname => not_mem_of_isIdentifier (h name hname) (by decide)
  have hblank : ∀ name ∈ names, name.toList.dropWhile (· == ' ') = name.toList := by
    intro name hname
    have hstop : ∀ c ∈ name.toList.head?, (c == ' ') = false := fun c hc =>
      beq_eq_false_iff_ne.mpr (ne_of_mem_of_not_mem (List.mem_of_mem_head? hc)
        (not_mem_of_isIdentifier (h name hname) (by decide)))
    exact Text.dropWhile_front (List.forall_mem_nil _) hstop
  cases names with
  | nil => exact absurd rfl hne
  | cons name rest =>
    rw [List.forall_mem_cons] at hcomma hblank
    have huncut : ∀ piece ∈ name.toList :: rest.map fun other => ' ' :: other.toList,
        ',' ∉ piece := by
      refine List.forall_mem_cons.mpr ⟨hcomma.1, List.forall_mem_map.mpr fun other hother => ?_⟩
      exact List.not_mem_cons_of_ne_of_not_mem (by decide) (hcomma.2 other hother)
    have hrest : (rest.map fun other => ' ' :: other.toList).map
        (fun parameter => String.ofList (parameter.dropWhile (· == ' '))) = rest := by
      rw [List.map_map]
      refine (List.map_congr_left fun other hother => ?_).trans rest.map_id
      rw [Function.comp_apply, List.dropWhile_cons_of_pos rfl, hblank.2 other hother,
        String.ofList_toList]
      rfl
    rw [toList_intercalate_comma, Text.segments_joinSegments (List.cons_ne_nil _ _) huncut,
      List.map_cons, hblank.1, String.ofList_toList, hrest]

/-- The type parameters of a heading are read as they are written. -/
theorem parametersIn_headerParameters {generics : List String}
    (h : ∀ name ∈ generics, isIdentifier name = true) {ending : List Char}
    (hending : ending.head? = some ' ') :
    parametersIn ((headerParameters generics).toList ++ ending) = generics := by
  obtain ⟨rest, rfl⟩ := List.head?_eq_some_iff.mp hending
  cases generics with
  | nil => rfl
  | cons name more =>
    have hclose : ∀ c ∈ (String.intercalate ", " (name :: more)).toList, (c != '>') = true := by
      have hnot : '>' ∉ (String.intercalate ", " (name :: more)).toList := by
        rw [String.toList_intercalate]
        refine not_mem_intercalate (by decide) (List.forall_mem_map.mpr fun name hname => ?_)
        exact not_mem_of_isIdentifier (h name hname) (by decide)
      exact fun c hc => bne_iff_ne.mpr (ne_of_mem_of_not_mem hc hnot)
    have htext : (headerParameters (name :: more)).toList ++ ' ' :: rest =
        '<' :: ((String.intercalate ", " (name :: more)).toList ++ '>' :: ' ' :: rest) := by
      simp [headerParameters]
    have hstop : ∀ c ∈ ('>' :: ' ' :: rest).head?, (c != '>') = false := by
      intro c hc
      cases hc
      rfl
    rw [htext, parametersIn, Text.takeWhile_front hclose hstop,
      map_segments_intercalate (List.cons_ne_nil _ _) h]

/-! ## 4. The lines of a declaration -/

/-- The lines of the comment above a declaration. -/
def documentationRows : Option String → List (List Char)
  | none => []
  | some doc => commentRows [] (commentLines doc)

/-- The line of a member of an interface. -/
def fieldRow (types : TypeTable) (indentation : String) (f : Field) : List Char :=
  written types ([.plain indentation] ++ fieldPieces f)

/-- The line of a member of an enumeration. -/
def memberRow (types : TypeTable) (indentation : String) (m : EnumMember) : List Char :=
  written types [.plain (indentation ++ m.name ++ " = "), .plain m.value.render] ++ ",".toList

/-- What stands behind the type parameters in the line of the name. -/
def headingEnd (types : TypeTable) : Definition → List Char
  | .struct s => (if s.fields.isEmpty then " \x7b\x7d" else " \x7b").toList
  | .enumeration _ => " \x7b".toList
  | .alias a => " = ".toList ++ written types (typePieces a.ty) ++ ";".toList

/-- The line of the name. -/
def headingRow (types : TypeTable) (body : Definition) : List Char :=
  written types [.plain (introduction body), .heading body.name body.generics] ++
    headingEnd types body

/-- The lines below it. -/
def rowsBelow (types : TypeTable) (indentation : String) : Definition → List (List Char)
  | .struct s =>
    if s.fields.isEmpty then [] else s.fields.map (fieldRow types indentation) ++ ["\x7d".toList]
  | .enumeration e => e.members.map (memberRow types indentation) ++ ["\x7d".toList]
  | .alias _ => []

section Rows

variable {types : TypeTable} {indentation : String} {body : Definition}

theorem written_comment (types : TypeTable) (doc : Option String) :
    written types [.plain (comment doc "").text] = unlines (documentationRows doc) := by
  cases doc with
  | none => rfl
  | some doc => simp [written, Piece.text, comment, Draft.write, commentChars_eq, documentationRows]

/-- Lines that are written one behind the other. -/
theorem written_flatMap_rows {α : Type} {items : List α} {pieces : α → List Piece}
    {row : α → List Char} (h : ∀ a ∈ items, written types (pieces a) = row a ++ ['\n']) :
    written types (items.flatMap pieces) = unlines (items.map row) := by
  rw [written, List.flatMap_assoc, unlines, List.flatMap_map]
  exact List.flatMap_congr h

/-- **A declaration is its comment, the line of its name and the lines of its members.** -/
theorem written_definitionPieces (types : TypeTable) (indentation : String) (body : Definition) :
    written types (definitionPieces indentation body) =
      unlines (documentationRows (documentation body) ++
        headingRow types body :: rowsBelow types indentation body) := by
  cases body with
  | struct s =>
    have hfields : written types (s.fields.flatMap (linePieces indentation)) =
        unlines (s.fields.map (fieldRow types indentation)) :=
      written_flatMap_rows fun f _ => by simp [linePieces, fieldRow, written, Piece.text]
    rw [definitionPieces, written_append, written_append, written_comment, Text.unlines_append,
      Text.unlines_cons]
    by_cases hempty : s.fields.isEmpty = true
    · simp [hempty, written, Piece.text, headingRow, headingEnd, rowsBelow, introduction,
        documentation, Definition.name, Definition.generics]
    · rw [if_neg hempty, written_append, written_append, hfields]
      simp [hempty, written, Piece.text, headingRow, headingEnd, rowsBelow, introduction,
        documentation, Definition.name, Definition.generics]
  | enumeration e =>
    have hmembers : written types (e.members.flatMap (memberPieces indentation)) =
        unlines (e.members.map (memberRow types indentation)) :=
      written_flatMap_rows fun m _ => by simp [memberPieces, memberRow, written, Piece.text]
    rw [definitionPieces, written_append, written_append, written_append, written_comment,
      hmembers]
    simp [written, Piece.text, headingRow, headingEnd, rowsBelow, introduction, documentation,
      Definition.name, Definition.generics, headerParameters]
  | «alias» a =>
    rw [definitionPieces, written_append, written_append]
    simp [written, Piece.text, headingRow, headingEnd, rowsBelow, introduction, documentation,
      documentationRows, Definition.name, Definition.generics]

theorem introduction_eq (body : Definition) :
    (introduction body).toList = "export ".toList ++ (body.keyword.toList ++ [' ']) := by
  cases body with
  | struct s =>
    show "export interface ".toList = "export ".toList ++ ("interface".toList ++ [' '])
    decide
  | enumeration e =>
    show "export enum ".toList = "export ".toList ++ ("enum".toList ++ [' '])
    decide
  | «alias» a =>
    show "export type ".toList = "export ".toList ++ ("type".toList ++ [' '])
    decide

/-- The keyword of a declaration is a word. -/
theorem isIdentifier_keyword (body : Definition) : isIdentifier body.keyword = true := by
  cases body with
  | struct s =>
    show isIdentifier "interface" = true
    decide
  | enumeration e =>
    show isIdentifier "enum" = true
    decide
  | «alias» a =>
    show isIdentifier "type" = true
    decide

/-- No line of a declaration is broken. -/
theorem newline_not_mem_rows (hindent : '\n' ∉ indentation.toList) (h : FitsLines types body) :
    ∀ row ∈ documentationRows (documentation body) ++
      headingRow types body :: rowsBelow types indentation body, '\n' ∉ row := by
  have hcomment : ∀ row ∈ documentationRows (documentation body), '\n' ∉ row := by
    cases documentation body with
    | none => exact List.forall_mem_nil _
    | some doc =>
      exact fun row hrow => (of_mem_commentRows (List.forall_mem_nil _)
        (fun line hline => (of_mem_commentLines hline).1) hrow).2
  have hopening : '\n' ∉ written types [.plain (introduction body),
      .heading body.name body.generics] := by
    have hkeyword := Json.newline_not_mem_of_isIdentifier (isIdentifier_keyword body)
    have hwords : '\n' ∉ (introduction body).toList := by
      rw [introduction_eq]
      exact List.not_mem_append (by decide) (List.not_mem_append hkeyword (by decide))
    refine newline_not_mem_written (List.forall_mem_cons.mpr ⟨.plain hwords, ?_⟩)
    exact List.forall_mem_singleton.mpr
      (h.isInline_heading body.generics_subset_bareNames)
  have hclosing : '\n' ∉ "\x7d".toList := by decide
  refine List.forall_mem_append.mpr ⟨hcomment, List.forall_mem_cons.mpr ⟨?_, ?_⟩⟩
  · refine List.not_mem_append hopening ?_
    cases body with
    | struct s =>
      rw [headingEnd]
      split <;> decide
    | enumeration e =>
      show '\n' ∉ " \x7b".toList
      decide
    | «alias» a =>
      have hty := newline_not_mem_written (h.expressions a.ty List.mem_cons_self)
      exact List.not_mem_append (List.not_mem_append (by decide) hty) (by decide)
  · cases body with
    | struct s =>
      rw [rowsBelow]
      split
      · exact List.forall_mem_nil _
      · refine List.forall_mem_append.mpr ⟨List.forall_mem_map.mpr fun f hf => ?_,
          List.forall_mem_singleton.mpr hclosing⟩
        have hty := h.expressions f.shape.1 (List.mem_map_of_mem hf)
        exact newline_not_mem_written (isInline_fieldPieces hindent hty)
    | enumeration e =>
      refine List.forall_mem_append.mpr ⟨List.forall_mem_map.mpr fun m hm => ?_,
        List.forall_mem_singleton.mpr hclosing⟩
      have hname := h.bareNames m.name (List.mem_map_of_mem hm)
      have hvalue := h.constants m.value (List.mem_map_of_mem hm)
      exact List.not_mem_append
        (newline_not_mem_written (isInline_memberPieces hindent hname hvalue)) (by decide)
    | «alias» a => exact List.forall_mem_nil _

/-- No line of a comment looks like one that exports something. -/
theorem not_export_of_mem_documentationRows {doc : Option String} {row : List Char}
    (h : row ∈ documentationRows doc) : "export ".toList.isPrefixOf row = false := by
  cases doc with
  | none => cases h
  | some doc =>
    rw [documentationRows] at h
    generalize commentLines doc = ls at h
    rcases ls with _ | ⟨first, _ | ⟨second, rest⟩⟩
    · cases h
    · obtain rfl := List.mem_singleton.mp h
      rfl
    · rw [commentRows_of_length (by simp)] at h
      rcases List.mem_cons.mp h with rfl | h
      · rfl
      · rcases List.mem_append.mp h with h | h
        · obtain ⟨line, -, rfl⟩ := List.mem_map.mp h
          obtain ⟨behind, hbehind⟩ := isPrefix_innerRow [] line
          rw [← hbehind]
          rfl
        · obtain rfl := List.mem_singleton.mp h
          rfl

/-! ## 5. Reading the lines -/

theorem headingRow_eq (types : TypeTable) (body : Definition) :
    headingRow types body = "export ".toList ++ (body.keyword.toList ++
      ' ' :: (body.name.toList ++
        ((headerParameters body.generics).toList ++ headingEnd types body))) := by
  simp [headingRow, written, Piece.text, introduction_eq]

theorem head?_headingEnd (types : TypeTable) (body : Definition) :
    (headingEnd types body).head? = some ' ' := by
  cases body with
  | struct s =>
    rw [headingEnd]
    split <;> rfl
  | enumeration e => rfl
  | «alias» a => rfl

/-- What follows the name of a declaration does not lengthen it. -/
theorem head?_behind_name (types : TypeTable) (body : Definition) :
    ∀ c ∈ ((headerParameters body.generics).toList ++ headingEnd types body).head?,
      isIdentifierPart c = false := by
  intro c hc
  have hend := head?_headingEnd types body
  rw [headerParameters] at hc
  split at hc
  · rw [String.toList_empty, List.nil_append, hend] at hc
    cases hc
    decide
  · rw [String.append_assoc, String.toList_append] at hc
    cases hc
    decide

theorem exists_toList_memberName (name : String) :
    ∃ c rest, (memberName name).toList = c :: rest ∧ c ≠ ' ' := by
  rw [memberName]
  split
  · rename_i hident
    obtain ⟨c, hc, hpart⟩ := head?_of_isIdentifier hident
    obtain ⟨rest, hname⟩ := List.head?_eq_some_iff.mp hc
    refine ⟨c, rest, hname, ?_⟩
    rintro rfl
    exact absurd hpart (by decide)
  · have hquoted : (Json.quoted name).toList =
        '"' :: (name.toList.flatMap Json.escaped ++ ['"']) := String.toList_ofList
    exact ⟨_, _, hquoted, by decide⟩

/-- The name of a member is read in its line. -/
theorem nameIn_row (hindent : ∀ c ∈ indentation.toList, (c == ' ') = true) (name : String)
    {rest : List Char} (hrest : ∀ c ∈ rest.head?, isIdentifierPart c = false) :
    nameIn ((indentation.toList ++ ((memberName name).toList ++ rest)).dropWhile (· == ' ')) =
      memberName name := by
  obtain ⟨c, cs, hname, hc⟩ := exists_toList_memberName name
  have hstop : ∀ d ∈ ((memberName name).toList ++ rest).head?, (d == ' ') = false := by
    intro d hd
    rw [hname] at hd
    cases hd
    exact beq_eq_false_iff_ne.mpr hc
  rw [Text.dropWhile_front hindent hstop, nameIn_memberName name hrest]

theorem nameIn_fieldRow (hindent : ∀ c ∈ indentation.toList, (c == ' ') = true) (f : Field) :
    nameIn ((fieldRow types indentation f).dropWhile (· == ' ')) = memberName f.name := by
  have hrow : fieldRow types indentation f = indentation.toList ++ ((memberName f.name).toList ++
      ((if f.shape.2 then "?: " else ": ").toList ++
        (written types (typePieces f.shape.1) ++ ";".toList))) := by
    simp [fieldRow, fieldPieces, written, Piece.text]
  rw [hrow]
  refine nameIn_row hindent f.name fun c hc => ?_
  split at hc
  all_goals
    cases hc
    decide

theorem nameIn_memberRow (hindent : ∀ c ∈ indentation.toList, (c == ' ') = true) {m : EnumMember}
    (hname : isIdentifier m.name = true) :
    nameIn ((memberRow types indentation m).dropWhile (· == ' ')) = memberName m.name := by
  have hbare : memberName m.name = m.name := if_pos hname
  have hrow : memberRow types indentation m = indentation.toList ++ ((memberName m.name).toList ++
      (" = ".toList ++ (m.value.render.toList ++ ",".toList))) := by
    simp [memberRow, written, Piece.text, hbare]
  rw [hrow]
  refine nameIn_row hindent m.name fun c hc => ?_
  cases hc
  decide

/-- The names of the members are read in the lines below that of the name. -/
theorem members_rowsBelow (hindent : ∀ c ∈ indentation.toList, (c == ' ') = true)
    (h : FitsLines types body) :
    (rowsBelow types indentation body).dropLast.map (fun row => nameIn (row.dropWhile (· == ' '))) =
      body.memberNames.map memberName := by
  cases body with
  | struct s =>
    rw [rowsBelow, Definition.memberNames]
    split
    · rename_i hempty
      rw [List.isEmpty_iff.mp hempty]
      rfl
    · rw [List.dropLast_concat, List.map_map, List.map_map]
      exact List.map_congr_left fun f _ => nameIn_fieldRow hindent f
  | enumeration e =>
    rw [rowsBelow, Definition.memberNames, List.dropLast_concat, List.map_map, List.map_map]
    refine List.map_congr_left fun m hm => ?_
    exact nameIn_memberRow hindent (h.bareNames m.name (List.mem_map_of_mem hm))
  | «alias» a => rfl

/-- **What is read off a declaration is what its definition introduces.** -/
theorem outline_of_written (hindent : ∀ c ∈ indentation.toList, (c == ' ') = true)
    (h : FitsLines types body) {text : String}
    (htext : text.toList = written types (definitionPieces indentation body)) :
    outline text = body.outline.written := by
  have hbreak : '\n' ∉ indentation.toList := fun hmem => absurd (hindent '\n' hmem) (by decide)
  have hlines : lines text.toList = documentationRows (documentation body) ++
      headingRow types body :: rowsBelow types indentation body := by
    rw [htext, written_definitionPieces]
    exact Text.lines_unlines (newline_not_mem_rows hbreak h)
  have hcomment : ∀ row ∈ documentationRows (documentation body),
      (!"export ".toList.isPrefixOf row) = true := by
    intro row hrow
    rw [not_export_of_mem_documentationRows hrow]
    rfl
  have hheading : ¬ (!"export ".toList.isPrefixOf (headingRow types body)) = true := by
    rw [headingRow_eq]
    simp
  have hkeyword : ∀ c ∈ body.keyword.toList, (c != ' ') = true := by
    have hnot := not_mem_of_isIdentifier (isIdentifier_keyword body) (c := ' ') (by decide)
    exact fun c hc => bne_iff_ne.mpr (ne_of_mem_of_not_mem hc hnot)
  have hspace : ∀ c ∈ (' ' :: (body.name.toList ++ ((headerParameters body.generics).toList ++
      headingEnd types body))).head?, (c != ' ') = false := by
    intro c hc
    cases hc
    rfl
  have hname := Json.forall_isIdentifierPart h.name
  have hbehind := head?_behind_name types body
  have hgenerics : ∀ name ∈ body.generics, isIdentifier name = true :=
    fun name hmem => h.bareNames name (body.generics_subset_bareNames hmem)
  have hbelow : (lines text.toList).dropWhile (fun row => !"export ".toList.isPrefixOf row) =
      headingRow types body :: rowsBelow types indentation body := by
    rw [hlines, List.dropWhile_append_of_pos hcomment]
    exact List.dropWhile_cons_of_neg hheading
  rw [outline, hbelow]
  dsimp only
  rw [headingRow_eq, ← String.length_toList, List.drop_left,
    Text.takeWhile_front hkeyword hspace, Text.dropWhile_front hkeyword hspace, List.drop_one,
    List.tail_cons, Text.takeWhile_front hname hbehind, Text.dropWhile_front hname hbehind,
    parametersIn_headerParameters hgenerics (head?_headingEnd types body),
    members_rowsBelow hindent h, String.ofList_toList, String.ofList_toList]
  rfl

end Rows

end Bindings

end WireContract
