/-!
# Cutting a text at a character

* `segments`: the text cut at every occurrence of a separator;
* `cutAt`: the text cut at the first one.

Both lose nothing but separators (`segments_join`, `cutAt_eq_some`), and a text without the
separator stays in one piece (`segments_append`, `segments_joinSegments`, `cutAt_append`). A text
that is read as long as its characters have a property ends where one has it no more
(`takeWhile_front`, `dropWhile_front`).
-/

namespace WireContract.Text

/-- The segments between the separators; there is always one. -/
def segments (separator : Char) : List Char → List (List Char)
  | [] => [[]]
  | c :: rest =>
    if c = separator then [] :: segments separator rest
    else
      match segments separator rest with
      | [] => [[c]]
      | segment :: more => (c :: segment) :: more

theorem segments_ne_nil (separator : Char) (cs : List Char) : segments separator cs ≠ [] := by
  cases cs with
  | nil => simp [segments]
  | cons c rest =>
    unfold segments
    split
    · simp
    · split <;> simp

/-- Segments put together again. -/
def joinSegments (separator : Char) : List (List Char) → List Char
  | [] => []
  | [segment] => segment
  | segment :: more => segment ++ separator :: joinSegments separator more

/-- **Cutting loses nothing but separators.** -/
theorem segments_join (separator : Char) (cs : List Char) :
    joinSegments separator (segments separator cs) = cs := by
  induction cs with
  | nil => rfl
  | cons c rest ih =>
    unfold segments
    split
    · rename_i h
      subst h
      cases hp : segments c rest with
      | nil => exact absurd hp (segments_ne_nil c rest)
      | cons segment more =>
        rw [hp] at ih
        simp [joinSegments, ih]
    · split
      · rename_i hp
        exact absurd hp (segments_ne_nil separator rest)
      · rename_i segment more hp
        rw [hp] at ih
        cases more with
        | nil => simpa [joinSegments] using ih
        | cons next others => simpa [joinSegments] using ih

/-- A text without the separator is one segment. -/
theorem segments_of_not_mem {separator : Char} {cs : List Char} (h : separator ∉ cs) :
    segments separator cs = [cs] := by
  induction cs with
  | nil => rfl
  | cons c rest ih =>
    have hc : ¬ c = separator := (List.ne_of_not_mem_cons h).symm
    rw [segments, if_neg hc, ih (List.not_mem_of_not_mem_cons h)]

/-- What stands in front of the first separator is the first segment. -/
theorem segments_append {separator : Char} {front : List Char} (h : separator ∉ front)
    (back : List Char) :
    segments separator (front ++ separator :: back) = front :: segments separator back := by
  induction front with
  | nil => rw [List.nil_append, segments, if_pos rfl]
  | cons c rest ih =>
    have hc : ¬ c = separator := (List.ne_of_not_mem_cons h).symm
    rw [List.cons_append, segments, if_neg hc, ih (List.not_mem_of_not_mem_cons h)]

/-- **Segments that hold no separator come back.** -/
theorem segments_joinSegments {separator : Char} {pieces : List (List Char)} (hne : pieces ≠ [])
    (h : ∀ piece ∈ pieces, separator ∉ piece) :
    segments separator (joinSegments separator pieces) = pieces := by
  induction pieces with
  | nil => exact absurd rfl hne
  | cons piece rest ih =>
    rw [List.forall_mem_cons] at h
    cases rest with
    | nil => exact segments_of_not_mem h.1
    | cons next more =>
      have hjoin : joinSegments separator (piece :: next :: more) =
          piece ++ separator :: joinSegments separator (next :: more) := rfl
      rw [hjoin, segments_append h.1, ih (List.cons_ne_nil _ _) h.2]

/-- A character in front of the first segment is in front of the text. -/
theorem joinSegments_cons_cons (separator c : Char) (segment : List Char)
    (more : List (List Char)) : joinSegments separator ((c :: segment) :: more) =
      c :: joinSegments separator (segment :: more) := by
  cases more <;> rfl

/-- The text in front of the first separator and the text behind it, if there is one. -/
def cutAt (separator : Char) : List Char → Option (List Char × List Char)
  | [] => none
  | c :: rest =>
    if c = separator then some ([], rest)
    else (cutAt separator rest).map fun (front, back) => (c :: front, back)

/-- **Cutting once loses nothing but the separator.** -/
theorem cutAt_eq_some {separator : Char} {cs front back : List Char}
    (h : cutAt separator cs = some (front, back)) : cs = front ++ separator :: back := by
  induction cs generalizing front back with
  | nil => simp [cutAt] at h
  | cons c rest ih =>
    unfold cutAt at h
    split at h
    · rename_i hc
      subst hc
      simp only [Option.some.injEq, Prod.mk.injEq] at h
      obtain ⟨rfl, rfl⟩ := h
      rfl
    · obtain ⟨⟨f, b⟩, hf, he⟩ := Option.map_eq_some_iff.1 h
      simp only [Prod.mk.injEq] at he
      obtain ⟨rfl, rfl⟩ := he
      rw [ih hf]
      rfl

/-- The cut is at the first separator. -/
theorem cutAt_append {separator : Char} {front : List Char} (h : separator ∉ front)
    (back : List Char) : cutAt separator (front ++ separator :: back) = some (front, back) := by
  induction front with
  | nil => rw [List.nil_append, cutAt, if_pos rfl]
  | cons c rest ih =>
    have hc : ¬ c = separator := (List.ne_of_not_mem_cons h).symm
    rw [List.cons_append, cutAt, if_neg hc, ih (List.not_mem_of_not_mem_cons h)]
    rfl

theorem not_mem_of_cutAt {separator : Char} {cs front back : List Char}
    (h : cutAt separator cs = some (front, back)) : separator ∉ front := by
  induction cs generalizing front back with
  | nil => cases h
  | cons c rest ih =>
    rw [cutAt] at h
    split at h
    · cases h
      exact List.not_mem_nil
    · rename_i hc
      obtain ⟨⟨f, b⟩, hf, he⟩ := Option.map_eq_some_iff.1 h
      cases he
      exact List.not_mem_cons_of_ne_of_not_mem (Ne.symm hc) (ih hf)

section Fronts

variable {p : Char → Bool} {front rest : List Char}

theorem takeWhile_front (hfront : ∀ c ∈ front, p c = true) (hrest : ∀ c ∈ rest.head?, p c = false) :
    (front ++ rest).takeWhile p = front := by
  rw [List.takeWhile_append_of_pos hfront]
  cases rest with
  | nil => exact List.append_nil front
  | cons c others =>
    have hstop : p c = false := hrest c rfl
    rw [List.takeWhile_cons_of_neg (by simp [hstop]), List.append_nil]

theorem dropWhile_front (hfront : ∀ c ∈ front, p c = true) (hrest : ∀ c ∈ rest.head?, p c = false) :
    (front ++ rest).dropWhile p = rest := by
  rw [List.dropWhile_append_of_pos hfront]
  cases rest with
  | nil => rfl
  | cons c others =>
    have hstop : p c = false := hrest c rfl
    rw [List.dropWhile_cons_of_neg (by simp [hstop])]

end Fronts

end WireContract.Text
