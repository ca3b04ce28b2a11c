import Mathlib.Data.List.Chain
import Mathlib.Data.List.DropRight
import WireContract.Text.Blank

/-!
# Lines and trimmed texts

A text is cut into lines, and lines are put together again, each with a line feed behind it. Every
text is a number of lines that are ended so, with a rest behind them that is not.

* `exists_eq_unlines_append`: that every text is;
* `lines_unlines_append`, `lines_unlines`: its lines are these, and the rest if there is one;
* `length_lines_eq_one_iff`: a text that does not end with a line feed is one line exactly when it
  holds none;
* `trim_isInfix`, `trim_eq_nil_iff`, `getLast?_trim_ne`: what trimming leaves.
-/

namespace WireContract.Text

/-! ## 1. Lines put together -/

/-- The text of the lines: a line feed behind each. -/
def unlines (rows : List (List Char)) : List Char :=
  rows.flatMap (· ++ ['\n'])

@[simp] theorem unlines_nil : unlines [] = [] := rfl

@[simp] theorem unlines_cons (row : List Char) (rows : List (List Char)) :
    unlines (row :: rows) = row ++ '\n' :: unlines rows := by
  simp [unlines]

@[simp] theorem unlines_append (xs ys : List (List Char)) :
    unlines (xs ++ ys) = unlines xs ++ unlines ys :=
  List.flatMap_append

theorem row_isInfix_unlines {row : List Char} {rows : List (List Char)} (h : row ∈ rows) :
    row <:+: unlines rows := by
  obtain ⟨before, behind, rfl⟩ := List.append_of_mem h
  exact ⟨unlines before, '\n' :: unlines behind, by simp⟩

/-- A text that holds a line feed ends with a line, or holds something behind its last line feed. -/
theorem exists_eq_unlines_append (cs : List Char) : ∃ rows rest,
    (∀ row ∈ rows, '\n' ∉ row) ∧ '\n' ∉ rest ∧ cs = unlines rows ++ rest := by
  induction cs with
  | nil => exact ⟨[], [], List.forall_mem_nil _, List.not_mem_nil, rfl⟩
  | cons c behind ih =>
    obtain ⟨rows, rest, hrows, hrest, rfl⟩ := ih
    by_cases hc : c = '\n'
    · refine ⟨[] :: rows, rest, ?_, hrest, by rw [hc]; rfl⟩
      exact List.forall_mem_cons.mpr ⟨List.not_mem_nil, hrows⟩
    · -- The character lengthens the first line, or the rest where there is no line.
      cases rows with
      | nil =>
        exact ⟨[], c :: rest, hrows, List.not_mem_cons_of_ne_of_not_mem (Ne.symm hc) hrest, rfl⟩
      | cons row more =>
        rw [List.forall_mem_cons] at hrows
        refine ⟨(c :: row) :: more, rest, List.forall_mem_cons.mpr ⟨?_, hrows.2⟩, hrest, by simp⟩
        exact List.not_mem_cons_of_ne_of_not_mem (Ne.symm hc) hrows.1

/-! ## 2. Lines of a text -/

/-- A character in front of a line lengthens it. -/
theorem lines_cons_of_lines {c : Char} (hc : c ≠ '\n') {rest line : List Char}
    {more : List (List Char)} (h : lines rest = line :: more) :
    lines (c :: rest) = (c :: line) :: more := by
  rw [lines, if_neg hc, h]

/-- What stands in front of the first line feed is the first line. -/
theorem lines_append {front : List Char} (h : '\n' ∉ front) (back : List Char) :
    lines (front ++ '\n' :: back) = front :: lines back := by
  induction front with
  | nil => rw [List.nil_append, lines, if_pos rfl]
  | cons c rest ih =>
    exact lines_cons_of_lines (List.ne_of_not_mem_cons h).symm
      (ih (List.not_mem_of_not_mem_cons h))

/-- A text without a line feed is one line, unless it is empty. -/
theorem lines_of_not_mem {cs : List Char} (hne : cs ≠ []) (h : '\n' ∉ cs) : lines cs = [cs] := by
  induction cs with
  | nil => exact absurd rfl hne
  | cons c rest ih =>
    have hc : c ≠ '\n' := (List.ne_of_not_mem_cons h).symm
    cases rest with
    | nil => rw [lines, if_neg hc, lines]
    | cons next behind =>
      exact lines_cons_of_lines hc (ih (List.cons_ne_nil _ _) (List.not_mem_of_not_mem_cons h))

theorem lines_unlines_append {rows : List (List Char)} (h : ∀ row ∈ rows, '\n' ∉ row)
    (rest : List Char) : lines (unlines rows ++ rest) = rows ++ lines rest := by
  induction rows with
  | nil => rfl
  | cons row more ih =>
    rw [List.forall_mem_cons] at h
    rw [unlines_cons, List.append_assoc, List.cons_append, lines_append h.1, ih h.2,
      List.cons_append]

/-- **Lines that hold no line feed come back.** -/
theorem lines_unlines {rows : List (List Char)} (h : ∀ row ∈ rows, '\n' ∉ row) :
    lines (unlines rows) = rows := by
  have hlines := lines_unlines_append h []
  rwa [List.append_nil, lines, List.append_nil] at hlines

theorem lines_eq_nil_iff {cs : List Char} : lines cs = [] ↔ cs = [] := by
  refine ⟨fun h => ?_, fun h => by rw [h, lines]⟩
  obtain ⟨rows, rest, hrows, hrest, rfl⟩ := exists_eq_unlines_append cs
  rw [lines_unlines_append hrows, List.append_eq_nil_iff] at h
  rw [h.1, unlines_nil, List.nil_append]
  by_contra hne
  rw [lines_of_not_mem hne hrest] at h
  exact List.cons_ne_nil _ _ h.2

/-- Every line stands in the text as it is. -/
theorem isInfix_of_mem_lines {cs line : List Char} (h : line ∈ lines cs) : line <:+: cs := by
  obtain ⟨rows, rest, hrows, hrest, rfl⟩ := exists_eq_unlines_append cs
  rw [lines_unlines_append hrows, List.mem_append] at h
  rcases h with h | h
  · exact (row_isInfix_unlines h).trans (List.prefix_append _ _).isInfix
  · have hne : rest ≠ [] := fun hnil => by rw [hnil] at h; cases h
    rw [lines_of_not_mem hne hrest, List.mem_singleton] at h
    rw [h]
    exact (List.suffix_append _ _).isInfix

theorem newline_not_mem_of_mem_lines {cs line : List Char} (h : line ∈ lines cs) :
    '\n' ∉ line := by
  obtain ⟨rows, rest, hrows, hrest, rfl⟩ := exists_eq_unlines_append cs
  rw [lines_unlines_append hrows, List.mem_append] at h
  rcases h with h | h
  · exact hrows line h
  · have hne : rest ≠ [] := fun hnil => by rw [hnil] at h; cases h
    rw [lines_of_not_mem hne hrest, List.mem_singleton] at h
    rwa [h]

/-- **A text that does not end with a line feed is one line exactly when it holds none.** -/
theorem length_lines_eq_one_iff {cs : List Char} (hne : cs ≠ []) (hlast : cs.getLast? ≠ some '\n') :
    (lines cs).length = 1 ↔ '\n' ∉ cs := by
  refine ⟨fun h hmem => ?_, fun h => by rw [lines_of_not_mem hne h]; rfl⟩
  obtain ⟨front, back, rfl, hfront⟩ := List.eq_append_cons_of_mem hmem
  have hback : back ≠ [] := by
    rintro rfl
    exact hlast List.getLast?_concat
  rw [lines_append hfront, List.length_cons] at h
  exact hback (lines_eq_nil_iff.mp (List.length_eq_zero_iff.mp (by omega)))

/-! ## 3. Trimming -/

theorem trimEnd_eq_rdropWhile (cs : List Char) : trimEnd cs = cs.rdropWhile isBlank := rfl

theorem trimEnd_isPrefix (cs : List Char) : trimEnd cs <+: cs :=
  List.rdropWhile_prefix _ _

theorem trim_isInfix (cs : List Char) : trim cs <:+: cs :=
  (trimEnd_isPrefix _).isInfix.trans (List.dropWhile_suffix _).isInfix

/-- Exactly what is blank is trimmed away as a whole. -/
theorem trimEnd_eq_nil_iff {cs : List Char} : trimEnd cs = [] ↔ ∀ c ∈ cs, isBlank c = true :=
  List.rdropWhile_eq_nil_iff

theorem trim_eq_nil_iff {cs : List Char} : trim cs = [] ↔ ∀ c ∈ cs, isBlank c = true := by
  refine ⟨fun h => ?_, fun h => ?_⟩
  · rw [trim, trimEnd_eq_nil_iff] at h
    rw [← List.takeWhile_append_dropWhile (p := isBlank) (l := cs)]
    intro c hc
    rcases List.mem_append.mp hc with hc | hc
    · exact List.mem_takeWhile_imp hc
    · exact h c hc
  · rw [trim, trimEnd_eq_nil_iff, trimStart, List.dropWhile_eq_nil_iff.mpr h]
    exact List.forall_mem_nil _

theorem getLast?_trimEnd_ne {cs : List Char} {c : Char} (h : isBlank c = true) :
    (trimEnd cs).getLast? ≠ some c := by
  intro hlast
  have hne : cs.rdropWhile isBlank ≠ [] := by
    intro hnil
    rw [trimEnd_eq_rdropWhile, hnil] at hlast
    cases hlast
  rw [trimEnd_eq_rdropWhile, List.getLast?_eq_some_getLast hne, Option.some.injEq] at hlast
  exact List.rdropWhile_last_not _ _ hne (hlast ▸ h)

/-- A trimmed text does not end with a blank. -/
theorem getLast?_trim_ne {cs : List Char} {c : Char} (h : isBlank c = true) :
    (trim cs).getLast? ≠ some c :=
  getLast?_trimEnd_ne h

end WireContract.Text
