import WireContract.Proofs.Bindings.Comments
import WireContract.Proofs.Bindings.Pieces
import WireContract.Proofs.Bindings.TokenText
import WireContract.Proofs.Text.Paragraphs

/-!
# Declarations and wrappers have no empty line

Documentation, values and the names of fields are any texts. In what is written for them they either
are quoted or stand in a comment, so that no line of a declaration or of a wrapper comes out empty,
and none is broken.

* `newline_not_mem_typePieces`: a type expression is one line;
* `isBlock_comment`: a comment is lines that are not empty;
* `isBlock_definitionPieces`, `isBlock_wrapperBodyPieces`: so are declarations and wrappers;
* `prefix_definitionPieces`, `prefix_wrapperBodyPieces`: which begin with the comment, followed by
  the name.
-/

namespace WireContract.Bindings

open Draft
open Text (IsBlock isIdentifier)

/-! ## 1. Pieces of a line -/

/-- Whether a piece stays in its line. -/
def Piece.IsInline (types : TypeTable) (piece : Piece) : Prop :=
  '\n' ∉ (piece.text types).toList

theorem Piece.IsInline.plain {types : TypeTable} {text : String} (h : '\n' ∉ text.toList) :
    (Piece.plain text).IsInline types := h

theorem newline_not_mem_written {types : TypeTable} {pieces : List Piece}
    (h : ∀ piece ∈ pieces, piece.IsInline types) : '\n' ∉ written types pieces := by
  intro hmem
  obtain ⟨piece, hpiece, hbreak⟩ := List.mem_flatMap.mp hmem
  exact h piece hpiece hbreak

/-- Pieces of one line and the text that ends it. -/
theorem isBlock_row {types : TypeTable} {pieces : List Piece} (text : String) {ending : String}
    (h : ∀ piece ∈ pieces, piece.IsInline types) (htext : '\n' ∉ text.toList)
    (hending : text ++ "\n" = ending) (hne : written types pieces ++ text.toList ≠ []) :
    IsBlock (written types (pieces ++ [.plain ending])) := by
  have hrow : written types (pieces ++ [.plain ending]) =
      written types pieces ++ text.toList ++ ['\n'] := by
    simp [written, Piece.text, ← hending]
  rw [hrow]
  exact IsBlock.line hne (List.not_mem_append (newline_not_mem_written h) htext)

theorem Mark.newline_not_mem (m : Mark) : '\n' ∉ m.text.toList := by cases m <;> decide

/-- **A type expression is one line** when its type parameters are identifiers. -/
theorem newline_not_mem_typePieces {types : TypeTable} (hbuilt : types.Built) {ty : Ty}
    (hsound : ty.IsSound types)
    (hparameters : ∀ name, .parameter name ∈ typeTokens ty → isIdentifier name = true) :
    ∀ piece ∈ typePieces ty, piece.IsInline types := by
  refine List.forall_mem_map.mpr fun t ht => ?_
  have hpart := standsIn_of_mem_typeTokens ty t ht
  change '\n' ∉ (t.text types).toList
  cases t with
  | mark m => exact m.newline_not_mem
  | keyword k => exact Json.newline_not_mem_of_isIdentifier k.isIdentifier_text
  | literal v => exact (Json.isWord_render (isScalar_of_standsIn hsound hpart)).newline_not_mem
  | parameter name => exact Json.newline_not_mem_of_isIdentifier (hparameters name ht)
  | reference target count =>
    obtain ⟨body, hbody, -⟩ := exists_get_of_standsIn hsound hpart
    exact Json.newline_not_mem_of_isIdentifier (hbuilt.isIdentifier _ (nameOf_mem_names hbody))

theorem not_mem_intercalate {c : Char} {separator : List Char} (hseparator : c ∉ separator)
    {texts : List (List Char)} (h : ∀ text ∈ texts, c ∉ text) :
    c ∉ separator.intercalate texts := by
  induction texts with
  | nil => exact List.not_mem_nil
  | cons text rest ih =>
    rw [List.forall_mem_cons] at h
    cases rest with
    | nil => rw [List.intercalate_singleton]; exact h.1
    | cons next more =>
      rw [List.intercalate_cons_cons]
      exact List.not_mem_append (List.not_mem_append h.1 hseparator) (ih h.2)

/-- Type parameters, with commas between them, are one line. -/
theorem newline_not_mem_headerParameters {generics : List String}
    (h : ∀ name ∈ generics, isIdentifier name = true) :
    '\n' ∉ (headerParameters generics).toList := by
  have hnames : '\n' ∉ (String.intercalate ", " generics).toList := by
    rw [String.toList_intercalate]
    refine not_mem_intercalate (by decide) (List.forall_mem_map.mpr fun name hname => ?_)
    exact Json.newline_not_mem_of_isIdentifier (h name hname)
  rw [headerParameters]
  split
  · decide
  · simpa using hnames

/-- The name of a member is one line, whatever the name. -/
theorem newline_not_mem_memberName (name : String) : '\n' ∉ (memberName name).toList := by
  rw [memberName]
  split
  · rename_i hident
    exact Json.newline_not_mem_of_isIdentifier hident
  · exact Json.newline_not_mem_quoted name

/-! ## 2. Declarations -/

/-- A comment falls into lines none of which is empty. -/
theorem isBlock_comment (types : TypeTable) (doc : Option String) :
    IsBlock (written types [.plain (comment doc "").text]) := by
  cases doc with
  | none => exact .nil
  | some doc =>
    have hrows : ∀ row ∈ commentRows [] (commentLines doc), row ≠ [] ∧ '\n' ∉ row :=
      fun row hrow => of_mem_commentRows (List.forall_mem_nil _)
        (fun line hline => (of_mem_commentLines hline).1) hrow
    refine ⟨commentRows [] (commentLines doc), hrows, ?_⟩
    simp [written, Piece.text, comment, Draft.write, commentChars_eq]

/-- What the expressions, values and names of a definition have to be for its declaration to fall
    into lines. -/
structure FitsLines (types : TypeTable) (body : Definition) : Prop where
  expressions : ∀ ty ∈ body.expressions, ∀ piece ∈ typePieces ty, piece.IsInline types
  constants : ∀ v ∈ body.constants, v.IsScalar
  name : isIdentifier body.name = true
  bareNames : ∀ name ∈ body.bareNames, isIdentifier name = true

section Declarations

variable {types : TypeTable} {indentation : String}

theorem FitsLines.isInline_heading {body : Definition} (h : FitsLines types body)
    {generics : List String} (hgenerics : generics ⊆ body.bareNames) :
    (Piece.heading body.name generics).IsInline types := by
  have hheader := newline_not_mem_headerParameters fun name hname =>
    h.bareNames name (hgenerics hname)
  have hname := Json.newline_not_mem_of_isIdentifier h.name
  simpa [Piece.IsInline, Piece.text] using ⟨hname, hheader⟩

/-- The line that closes the braces. -/
theorem isBlock_closing : IsBlock (written types [.plain "\x7d\n"]) :=
  isBlock_row "\x7d" (List.forall_mem_nil _) (by decide) rfl (by simp)

/-- A member of an interface is one line. -/
theorem isInline_fieldPieces (hindent : '\n' ∉ indentation.toList) {f : Field}
    (h : ∀ piece ∈ typePieces f.shape.1, piece.IsInline types) :
    ∀ piece ∈ [.plain indentation] ++ fieldPieces f, piece.IsInline types := by
  have hmark : '\n' ∉ (if f.shape.2 then "?: " else ": ").toList := by split <;> decide
  simp only [fieldPieces, List.forall_mem_append, List.forall_mem_singleton]
  exact ⟨hindent, ⟨⟨newline_not_mem_memberName f.name, hmark⟩, h⟩, .plain (by decide)⟩

theorem isBlock_linePieces (hindent : '\n' ∉ indentation.toList) {f : Field}
    (h : ∀ piece ∈ typePieces f.shape.1, piece.IsInline types) :
    IsBlock (written types (linePieces indentation f)) := by
  refine isBlock_row "" (isInline_fieldPieces hindent h) (by decide) rfl ?_
  simp [written, fieldPieces, Piece.text]

/-- So is one of an enumeration. -/
theorem isInline_memberPieces (hindent : '\n' ∉ indentation.toList) {m : EnumMember}
    (hname : isIdentifier m.name = true) (hvalue : m.value.IsScalar) :
    ∀ piece ∈ [Piece.plain (indentation ++ m.name ++ " = "), .plain m.value.render],
      piece.IsInline types := by
  have hstart : '\n' ∉ (indentation ++ m.name ++ " = ").toList := by
    simpa using ⟨hindent, Json.newline_not_mem_of_isIdentifier hname⟩
  simp only [List.forall_mem_cons]
  exact ⟨hstart, (Json.isWord_render hvalue).newline_not_mem, List.forall_mem_nil _⟩

theorem isBlock_memberPieces (hindent : '\n' ∉ indentation.toList) {m : EnumMember}
    (hname : isIdentifier m.name = true) (hvalue : m.value.IsScalar) :
    IsBlock (written types (memberPieces indentation m)) :=
  isBlock_row "," (isInline_memberPieces hindent hname hvalue) (by decide) rfl (by simp)

theorem isBlock_interface (hindent : '\n' ∉ indentation.toList) {s : StructDef}
    (h : FitsLines types (.struct s)) :
    IsBlock (written types (definitionPieces indentation (.struct s))) := by
  have hopening : ∀ piece ∈ [Piece.plain "export interface ", .heading s.name s.generics],
      piece.IsInline types :=
    List.forall_mem_cons.mpr ⟨.plain (by decide), List.forall_mem_singleton.mpr
      (h.isInline_heading (List.Subset.refl s.generics))⟩
  have hlines : IsBlock (written types (s.fields.flatMap (linePieces indentation))) := by
    rw [written, List.flatMap_assoc]
    refine .flatMap fun f hf => isBlock_linePieces hindent ?_
    exact h.expressions _ (List.mem_map_of_mem hf)
  rw [definitionPieces]
  split
  · have hrow : IsBlock (written types ([.plain "export interface ",
        .heading s.name s.generics] ++ [.plain " \x7b\x7d\n"])) :=
      isBlock_row " \x7b\x7d" hopening (by decide) rfl (by simp)
    simpa only [written_append, List.append_assoc] using (isBlock_comment types s.doc).append hrow
  · have hrow : IsBlock (written types ([.plain "export interface ",
        .heading s.name s.generics] ++ [.plain " \x7b\n"])) :=
      isBlock_row " \x7b" hopening (by decide) rfl (by simp)
    simpa only [written_append, List.append_assoc] using
      (((isBlock_comment types s.doc).append hrow).append hlines).append isBlock_closing

theorem isBlock_enumeration (hindent : '\n' ∉ indentation.toList) {e : EnumDef}
    (h : FitsLines types (.enumeration e)) :
    IsBlock (written types (definitionPieces indentation (.enumeration e))) := by
  have hopening : ∀ piece ∈ [Piece.plain "export enum ", .heading e.name []],
      piece.IsInline types :=
    List.forall_mem_cons.mpr ⟨.plain (by decide), List.forall_mem_singleton.mpr
      (h.isInline_heading (List.nil_subset _))⟩
  have hrow : IsBlock (written types [.plain "export enum ", .heading e.name [],
      .plain " \x7b\n"]) :=
    isBlock_row " \x7b" hopening (by decide) rfl (by simp)
  have hlines : IsBlock (written types (e.members.flatMap (memberPieces indentation))) := by
    rw [written, List.flatMap_assoc]
    refine .flatMap fun m hm => isBlock_memberPieces hindent ?_ ?_
    · exact h.bareNames m.name (List.mem_map_of_mem hm)
    · exact h.constants m.value (List.mem_map_of_mem hm)
  simpa only [definitionPieces, written_append, List.append_assoc] using
    (((isBlock_comment types e.doc).append hrow).append hlines).append isBlock_closing

theorem isBlock_alias {a : AliasDef} (h : FitsLines types (.alias a)) :
    IsBlock (written types (definitionPieces indentation (.alias a))) := by
  have hopening : ∀ piece ∈ [Piece.plain "export type ", .heading a.name a.generics,
      .plain " = "] ++ typePieces a.ty, piece.IsInline types := by
    have hheading := h.isInline_heading (List.Subset.refl a.generics)
    simp only [List.forall_mem_append, List.forall_mem_cons]
    exact ⟨⟨.plain (by decide), hheading, .plain (by decide), List.forall_mem_nil _⟩,
      h.expressions a.ty List.mem_cons_self⟩
  exact isBlock_row ";" hopening (by decide) rfl (by simp)

/-- **A declaration falls into lines none of which is empty.** -/
theorem isBlock_definitionPieces (hindent : '\n' ∉ indentation.toList) {body : Definition}
    (h : FitsLines types body) : IsBlock (written types (definitionPieces indentation body)) := by
  cases body with
  | struct s => exact isBlock_interface hindent h
  | enumeration e => exact isBlock_enumeration hindent h
  | «alias» a => exact isBlock_alias h

/-- The words that introduce the name in a declaration. -/
def introduction : Definition → String
  | .struct _ => "export interface "
  | .enumeration _ => "export enum "
  | .alias _ => "export type "

/-- The documentation of a definition; an alias has none. -/
def documentation : Definition → Option String
  | .struct s => s.doc
  | .enumeration e => e.doc
  | .alias _ => none

/-- **A declaration begins with its comment**, and the name follows directly. -/
theorem prefix_definitionPieces (types : TypeTable) (indentation : String) (body : Definition) :
    (comment (documentation body) "").text.toList ++ (introduction body ++ body.name).toList <+:
      written types (definitionPieces indentation body) := by
  cases body with
  | struct s => simp [definitionPieces, written, Piece.text, documentation, introduction,
      Definition.name]
  | enumeration e => simp [definitionPieces, written, Piece.text, documentation, introduction,
      Definition.name]
  | «alias» a => simp [definitionPieces, written, Piece.text, documentation, introduction,
      Definition.name, comment, Draft.empty]

end Declarations

/-! ## 3. Wrappers -/

section Wrappers

variable {types : TypeTable} {options : Options} {m : Method}

theorem newline_not_mem_indentation (options : Options) : '\n' ∉ options.indentation.toList := by
  simp [Options.indentation]

/-- The line that a wrapper begins with, behind its comment. -/
theorem isBlock_wrapperHeader (hresult : '\n' ∉ options.resultType.toList)
    (hname : isIdentifier m.name = true)
    (h : ∀ ty ∈ m.expressions, ∀ piece ∈ typePieces ty, piece.IsInline types) (omissible : Bool) :
    IsBlock (written types ([.plain ("export async function " ++ m.name ++ "(parameters: ")] ++
      typePieces (.reference m.params) ++ [.plain (if omissible then " = \x7b\x7d" else "")] ++
      [.plain ("): Promise<" ++ options.resultType ++ "<")] ++ typePieces m.returns ++
      [.plain ">> \x7b\n"])) := by
  have hparams := h (.reference m.params) List.mem_cons_self
  have hreturns := h m.returns (List.mem_cons_of_mem _ List.mem_cons_self)
  have hident := Json.newline_not_mem_of_isIdentifier hname
  have hstart : '\n' ∉ ("export async function " ++ m.name ++ "(parameters: ").toList := by
    simpa using hident
  have hdefault : '\n' ∉ (if omissible then " = \x7b\x7d" else "").toList := by split <;> decide
  have hpromise : '\n' ∉ ("): Promise<" ++ options.resultType ++ "<").toList := by
    simpa using hresult
  refine isBlock_row ">> \x7b" ?_ (by decide) rfl (by simp)
  simp only [List.forall_mem_append, List.forall_mem_singleton]
  exact ⟨⟨⟨⟨.plain hstart, hparams⟩, .plain hdefault⟩, .plain hpromise⟩, hreturns⟩

/-- The line in which a wrapper calls. -/
theorem isBlock_wrapperCall (hdispatch : '\n' ∉ options.dispatch.toList) :
    IsBlock (written types ([.plain (options.indentation ++ "return await " ++ options.dispatch ++
      "(")] ++ [.plain (Json.quoted m.name)] ++ [.plain ", parameters);\n"])) := by
  have hcall :
      '\n' ∉ (options.indentation ++ "return await " ++ options.dispatch ++ "(").toList := by
    simpa using ⟨newline_not_mem_indentation options, hdispatch⟩
  refine isBlock_row ", parameters);" ?_ (by decide) rfl (by simp)
  simp only [List.forall_mem_append, List.forall_mem_singleton]
  exact ⟨.plain hcall, .plain (Json.newline_not_mem_quoted m.name)⟩

/-- **A wrapper falls into lines none of which is empty.** -/
theorem isBlock_wrapperBodyPieces (hdispatch : '\n' ∉ options.dispatch.toList)
    (hresult : '\n' ∉ options.resultType.toList) (hname : isIdentifier m.name = true)
    (h : ∀ ty ∈ m.expressions, ∀ piece ∈ typePieces ty, piece.IsInline types) (omissible : Bool) :
    IsBlock (written types (wrapperBodyPieces options m omissible)) := by
  have hheader := isBlock_wrapperHeader hresult hname h omissible
  have hcall : IsBlock (written types _) := isBlock_wrapperCall (m := m) hdispatch
  -- The last piece of a wrapper is two lines.
  have hending : written types [.plain ", parameters);\n\x7d\n"] =
      written types [.plain ", parameters);\n"] ++ written types [.plain "\x7d\n"] := by
    simp only [written, Piece.text, List.flatMap_singleton]
    decide
  rw [wrapperBodyPieces, written_append, hending]
  simpa only [written_append, List.append_assoc] using
    (((isBlock_comment types m.doc).append hheader).append hcall).append isBlock_closing

/-- **A wrapper begins with its comment**, and the name follows directly. -/
theorem prefix_wrapperBodyPieces (types : TypeTable) (options : Options) (m : Method)
    (omissible : Bool) :
    (comment m.doc "").text.toList ++ ("export async function " ++ m.name).toList <+:
      written types (wrapperBodyPieces options m omissible) := by
  simp [wrapperBodyPieces, written, Piece.text]

end Wrappers

end WireContract.Bindings
