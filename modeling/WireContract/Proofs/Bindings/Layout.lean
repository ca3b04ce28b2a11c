import WireContract.Proofs.Bindings.Blocks
import WireContract.Proofs.Bindings.Emission

/-!
# The layout of client code

The parts of client code are laid out with an empty line between any two, and so are the blocks
within them. Whether a separator is written is decided in several places, each by what is there
already; together they put one empty line between two consecutive blocks and none anywhere else.

* `layOut_cons`: a first part stands above the layout of the others;
* `layOut_intercalate`: two parts made of blocks are laid out as one row of blocks;
* `FallsInto`, `fallsInto_intercalate`: a row of blocks falls into its blocks again.
-/

namespace WireContract.Bindings

open Draft
open Text (IsBlock isBlank trimEnd)

/-! ## 1. Parts -/

namespace layOut

theorem place_empty (text : String) : place text "" = text := rfl

theorem place_of_ne {part : String} (h : part ≠ "") (text : String) :
    place text part = (if text.isEmpty then text else text ++ "\n") ++ part ++
      (if part.toList.getLast? = some '\n' then "" else "\n") := by
  rw [place, if_neg (by simpa [String.isEmpty_iff] using h)]

/-- A text above another one, with an empty line between the two. -/
def above (top text : String) : String :=
  if text.isEmpty then top else top ++ "\n" ++ text

theorem above_empty (top : String) : above top "" = top := rfl

theorem above_of_ne (top : String) {text : String} (h : text ≠ "") :
    above top text = top ++ "\n" ++ text := by
  rw [above, if_neg (by simpa [String.isEmpty_iff] using h)]

theorem place_start {part : String} (h : part ≠ "") :
    place "" part = part ++ (if part.toList.getLast? = some '\n' then "" else "\n") := by
  rw [place_of_ne h]
  exact congrArg (· ++ _) String.empty_append

theorem place_start_ne {part : String} (h : part ≠ "") : place "" part ≠ "" := by
  rw [place_start h]
  exact fun hempty => h (String.append_eq_empty_iff.mp hempty).1

/-- A part comes below what is there, as it would come first. -/
theorem place_of_text_ne {text part : String} (htext : text ≠ "") (hpart : part ≠ "") :
    place text part = text ++ "\n" ++ place "" part := by
  rw [place_of_ne hpart, place_start hpart, if_neg (by simpa [String.isEmpty_iff] using htext),
    String.append_assoc]

theorem place_above {top : String} (htop : top ≠ "") (text part : String) :
    place (above top text) part = above top (place text part) := by
  by_cases hpart : part = ""
  · rw [hpart, place_empty, place_empty]
  have hstart := place_start_ne hpart
  by_cases htext : text = ""
  · rw [htext, above_empty, place_of_text_ne htop hpart, above_of_ne top hstart]
  · have habove : above top text ≠ "" := by
      rw [above_of_ne top htext]
      exact fun hempty => htext (String.append_eq_empty_iff.mp hempty).2
    have hplaced : place text part ≠ "" := by
      rw [place_of_text_ne htext hpart]
      exact fun hempty => hstart (String.append_eq_empty_iff.mp hempty).2
    rw [place_of_text_ne habove hpart, above_of_ne top htext, above_of_ne top hplaced,
      place_of_text_ne htext hpart]
    simp only [String.append_assoc]

theorem foldl_place_above {top : String} (htop : top ≠ "") (text : String) (parts : List String) :
    parts.foldl place (above top text) = above top (parts.foldl place text) := by
  induction parts generalizing text with
  | nil => rfl
  | cons part rest ih => rw [List.foldl_cons, place_above htop, ih, List.foldl_cons]

theorem place_eq_empty_iff {text part : String} :
    place text part = "" ↔ text = "" ∧ part = "" := by
  by_cases hpart : part = ""
  · rw [hpart, place_empty, and_iff_left rfl]
  · rw [place_of_ne hpart, String.append_eq_empty_iff, String.append_eq_empty_iff]
    exact ⟨fun h => absurd h.1.2 hpart, fun h => absurd h.2 hpart⟩

theorem foldl_place_eq_empty_iff {text : String} {parts : List String} :
    parts.foldl place text = "" ↔ text = "" ∧ ∀ part ∈ parts, part = "" := by
  induction parts generalizing text with
  | nil => simp
  | cons part rest ih =>
    rw [List.foldl_cons, ih, place_eq_empty_iff, List.forall_mem_cons, and_assoc]

end layOut

open layOut

/-- Nothing is laid out where there is nothing in the parts. -/
theorem layOut_eq_empty_iff {parts : List String} :
    layOut parts = "" ↔ ∀ part ∈ parts, part = "" := by
  rw [layOut, foldl_place_eq_empty_iff, and_iff_right rfl]

theorem layOut_empty_cons (parts : List String) : layOut ("" :: parts) = layOut parts := rfl

/-- **A first part stands above the layout of the others.** -/
theorem layOut_cons {part : String} (h : part ≠ "") (parts : List String) :
    layOut (part :: parts) = above (place "" part) (layOut parts) := by
  rw [layOut, List.foldl_cons, ← above_empty (place "" part), foldl_place_above (place_start_ne h)]
  rfl

/-! ## 2. Rows of blocks -/

/-- Whether a text can be one of several blocks. -/
def IsPart (block : String) : Prop := IsBlock block.toList ∧ block ≠ ""

section Rows

variable {blocks : List String} (h : ∀ block ∈ blocks, IsPart block)

include h

theorem isBlock_toList : ∀ block ∈ blocks.map String.toList, IsBlock block ∧ block ≠ [] :=
  List.forall_mem_map.mpr fun block hblock =>
    ⟨(h block hblock).1, fun hnil => (h block hblock).2 (String.toList_eq_nil_iff.mp hnil)⟩

theorem exists_toList_intercalate (hne : blocks ≠ []) :
    ∃ front last,
      (String.intercalate "\n" blocks).toList = front ++ [last, '\n'] ∧ last ≠ '\n' := by
  rw [String.toList_intercalate]
  exact Text.exists_intercalate_eq_append (isBlock_toList h) (by simpa using hne)

theorem intercalate_ne_empty (hne : blocks ≠ []) : String.intercalate "\n" blocks ≠ "" := by
  obtain ⟨front, last, htext, -⟩ := exists_toList_intercalate h hne
  intro hempty
  simp [hempty] at htext

/-- Blocks end with a line feed of their own. -/
theorem place_start_intercalate :
    place "" (String.intercalate "\n" blocks) = String.intercalate "\n" blocks := by
  by_cases hne : blocks = []
  · rw [hne]; rfl
  · obtain ⟨front, last, htext, -⟩ := exists_toList_intercalate h hne
    rw [place_start (intercalate_ne_empty h hne), htext, if_pos (by simp), String.append_empty]

end Rows

/-- **Two parts made of blocks are laid out as one row of blocks.** -/
theorem layOut_intercalate {xs ys : List String} (hx : ∀ block ∈ xs, IsPart block)
    (hy : ∀ block ∈ ys, IsPart block) :
    layOut [String.intercalate "\n" xs, String.intercalate "\n" ys] =
      String.intercalate "\n" (xs ++ ys) := by
  have hlast : layOut [String.intercalate "\n" ys] = String.intercalate "\n" ys :=
    place_start_intercalate hy
  by_cases hxs : xs = []
  · rw [hxs, List.nil_append, String.intercalate_nil, layOut_empty_cons, hlast]
  rw [layOut_cons (intercalate_ne_empty hx hxs), hlast, place_start_intercalate hx]
  by_cases hys : ys = []
  · rw [hys, List.append_nil, String.intercalate_nil, above_empty]
  · rw [above_of_ne _ (intercalate_ne_empty hy hys), String.intercalate_append_of_ne_nil hxs hys]

/-- How a text falls into blocks: at its empty lines, of which there is one between two consecutive
    blocks, and none in a block. -/
structure FallsInto (text : String) (blocks : List String) : Prop where
  paragraphs : Text.paragraphs text.toList = blocks.map String.toList
  nonempty : ∀ block ∈ blocks, block ≠ ""
  no_empty_line : ∀ block ∈ blocks, [] ∉ Text.lines block.toList
  separated : Text.lines text.toList =
    [[]].intercalate (blocks.map fun block => Text.lines block.toList)
  ending : text = "" ∨ ∃ front last, text.toList = front ++ [last, '\n'] ∧ last ≠ '\n'

/-- **A row of blocks falls into its blocks again.** -/
theorem fallsInto_intercalate {blocks : List String} (h : ∀ block ∈ blocks, IsPart block) :
    FallsInto (String.intercalate "\n" blocks) blocks := by
  refine ⟨?_, fun block hblock => (h block hblock).2, fun block hblock =>
    (h block hblock).1.nil_not_mem_lines, ?_, ?_⟩
  · rw [String.toList_intercalate]
    exact Text.paragraphs_intercalate (isBlock_toList h)
  · rw [String.toList_intercalate]
    have hlines := Text.lines_intercalate fun block hblock => (isBlock_toList h block hblock).1
    rwa [List.map_map] at hlines
  · by_cases hne : blocks = []
    · exact .inl (by rw [hne, String.intercalate_nil])
    · exact .inr (exists_toList_intercalate h hne)

end WireContract.Bindings
