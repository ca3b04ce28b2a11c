import WireContract.Proofs.Text.Lines

/-!
# Paragraphs

A text of several parts is easily taken apart again when no part has an empty line and an empty line
stands between any two.

* `paragraphs`: a text cut at its empty lines;
* `IsBlock`: a text of lines none of which is empty, and how blocks are put together;
* `paragraphs_intercalate`: blocks with line feeds between them come back as they were.
-/

namespace WireContract.Text

/-- The parts of a text between its empty lines; the empty text has none. -/
def paragraphs (cs : List Char) : List (List Char) :=
  if cs.isEmpty then [] else ((lines cs).splitOn []).map unlines

/-! ## 1. Blocks -/

/-- A text of lines that are not empty, each ended by a line feed. -/
def IsBlock (cs : List Char) : Prop :=
  ∃ rows, (∀ row ∈ rows, row ≠ [] ∧ '\n' ∉ row) ∧ cs = unlines rows

namespace IsBlock

variable {xs ys : List Char}

theorem nil : IsBlock [] := ⟨[], List.forall_mem_nil _, rfl⟩

/-- A line that is not empty. -/
theorem line (hne : xs ≠ []) (h : '\n' ∉ xs) : IsBlock (xs ++ ['\n']) :=
  ⟨[xs], List.forall_mem_singleton.mpr ⟨hne, h⟩, by simp⟩

theorem append (hx : IsBlock xs) (hy : IsBlock ys) : IsBlock (xs ++ ys) := by
  obtain ⟨rows, hrows, rfl⟩ := hx
  obtain ⟨more, hmore, rfl⟩ := hy
  exact ⟨rows ++ more, List.forall_mem_append.mpr ⟨hrows, hmore⟩, (unlines_append ..).symm⟩

theorem flatMap {α : Type} {items : List α} {f : α → List Char}
    (h : ∀ item ∈ items, IsBlock (f item)) : IsBlock (items.flatMap f) := by
  induction items with
  | nil => exact nil
  | cons item rest ih =>
    rw [List.forall_mem_cons] at h
    rw [List.flatMap_cons]
    exact h.1.append (ih h.2)

/-- No line of a block is empty. -/
theorem nil_not_mem_lines (h : IsBlock xs) : [] ∉ lines xs := by
  obtain ⟨rows, hrows, rfl⟩ := h
  rw [lines_unlines fun row hrow => (hrows row hrow).2]
  exact fun hnil => (hrows [] hnil).1 rfl

/-- A block is put together of its lines. -/
theorem unlines_lines (h : IsBlock xs) : unlines (lines xs) = xs := by
  obtain ⟨rows, hrows, rfl⟩ := h
  rw [lines_unlines fun row hrow => (hrows row hrow).2]

/-- A block that is not empty ends with one line feed. -/
theorem exists_eq_append (h : IsBlock xs) (hne : xs ≠ []) :
    ∃ front last, xs = front ++ [last, '\n'] ∧ last ≠ '\n' := by
  obtain ⟨rows, hrows, rfl⟩ := h
  rcases List.eq_nil_or_concat rows with rfl | ⟨more, row, rfl⟩
  · exact absurd rfl hne
  · obtain ⟨hrow, hbreak⟩ := hrows row (by simp)
    obtain ⟨front, last, rfl⟩ := List.eq_nil_or_concat row |>.resolve_left hrow
    refine ⟨unlines more ++ front, last, by simp, ?_⟩
    rintro rfl
    exact hbreak (by simp)

end IsBlock

/-! ## 2. Blocks put together -/

/-- **A line feed between blocks is an empty line between their lines.** -/
theorem lines_intercalate {blocks : List (List Char)} (h : ∀ block ∈ blocks, IsBlock block) :
    lines (['\n'].intercalate blocks) = [[]].intercalate (blocks.map lines) := by
  induction blocks with
  | nil => rfl
  | cons block rest ih =>
    rw [List.forall_mem_cons] at h
    cases rest with
    | nil => simp only [List.map_cons, List.map_nil, List.intercalate_singleton]
    | cons next more =>
      obtain ⟨rows, hrows, rfl⟩ := h.1
      have hlines : ∀ row ∈ rows, '\n' ∉ row := fun row hrow => (hrows row hrow).2
      have hfeed : ∀ behind, lines ('\n' :: behind) = [] :: lines behind :=
        lines_append List.not_mem_nil
      rw [List.intercalate_cons_cons, List.append_assoc, lines_unlines_append hlines,
        List.singleton_append, hfeed, ih h.2]
      simp only [List.map_cons, List.intercalate_cons_cons, lines_unlines hlines,
        List.append_assoc, List.singleton_append]

/-- **Blocks with line feeds between them come back.** -/
theorem paragraphs_intercalate {blocks : List (List Char)}
    (h : ∀ block ∈ blocks, IsBlock block ∧ block ≠ []) :
    paragraphs (['\n'].intercalate blocks) = blocks := by
  have hblocks : ∀ block ∈ blocks, IsBlock block := fun block hblock => (h block hblock).1
  have hback : (blocks.map lines).map unlines = blocks := by
    rw [List.map_map]
    exact (List.map_congr_left fun block hblock => (hblocks block hblock).unlines_lines).trans
      (List.map_id _)
  cases blocks with
  | nil => rfl
  | cons block rest =>
    have hne : (['\n'].intercalate (block :: rest)).isEmpty = false := by
      have hblock := (h block List.mem_cons_self).2
      cases rest with
      | nil => simpa [List.intercalate_singleton] using hblock
      | cons next more => simp [List.intercalate_cons_cons]
    have hsplit : ([[]].intercalate ((block :: rest).map lines)).splitOn [] =
        (block :: rest).map lines := by
      refine List.splitOn_intercalate [] (List.forall_mem_map.mpr fun block hblock => ?_) (by simp)
      exact (hblocks block hblock).nil_not_mem_lines
    rw [paragraphs, hne, if_neg Bool.false_ne_true, lines_intercalate hblocks, hsplit, hback]

/-- Of blocks with line feeds between them only the last one ends the text. -/
theorem exists_intercalate_eq_append {blocks : List (List Char)}
    (h : ∀ block ∈ blocks, IsBlock block ∧ block ≠ []) (hne : blocks ≠ []) :
    ∃ front last, ['\n'].intercalate blocks = front ++ [last, '\n'] ∧ last ≠ '\n' := by
  induction blocks with
  | nil => exact absurd rfl hne
  | cons block rest ih =>
    rw [List.forall_mem_cons] at h
    cases rest with
    | nil =>
      rw [List.intercalate_singleton]
      exact h.1.1.exists_eq_append h.1.2
    | cons next more =>
      obtain ⟨front, last, hrest, hlast⟩ := ih h.2 (List.cons_ne_nil _ _)
      refine ⟨block ++ ['\n'] ++ front, last, ?_, hlast⟩
      simp [List.intercalate_cons_cons, hrest]

end WireContract.Text
