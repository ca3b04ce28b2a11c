import Mathlib.Data.List.Chain
import WireContract.Bindings.Draft
import WireContract.Proofs.Text.Lines

/-!
# Comments end where they are meant to end

Documentation is any text. It is written between `/**` and `*/`, and nothing in it may end the
comment before that.

* `IsOpen`: no `*/` stands in a text. The text with backslashes is open (`isOpen_keptOpen`), and so
  is what is put together from open texts when no star meets a slash (`IsOpen.append`);
* `commentRows`, `commentChars_eq`: the lines of a comment, each ended by a line feed;
* `IsComment`, `isComment_commentChars`: what is written for a documentation that is not blank; for
  all others nothing is.
-/

namespace WireContract.Bindings.Draft

open Text

/-! ## 1. Texts in which no comment ends -/

/-- A star is followed by no slash. -/
def IsOpen (cs : List Char) : Prop :=
  cs.IsChain fun c next => ¬ (c = '*' ∧ next = '/')

instance (cs : List Char) : Decidable (IsOpen cs) :=
  inferInstanceAs (Decidable (List.IsChain _ cs))

namespace IsOpen

variable {xs ys : List Char}

theorem of_isInfix (h : IsOpen ys) (hinside : xs <:+: ys) : IsOpen xs :=
  List.IsChain.infix h hinside

theorem append (hx : IsOpen xs) (hy : IsOpen ys)
    (h : xs.getLast? ≠ some '*' ∨ ys.head? ≠ some '/') : IsOpen (xs ++ ys) := by
  refine List.isChain_append.mpr ⟨hx, hy, ?_⟩
  rintro c hc next hnext ⟨rfl, rfl⟩
  exact h.elim (fun hlast => hlast hc) fun hhead => hhead hnext

/-- A text without a slash is open. -/
theorem of_not_mem (h : '/' ∉ xs) : IsOpen xs := by
  induction xs with
  | nil => exact List.isChain_nil
  | cons c rest ih =>
    refine List.isChain_cons.mpr ⟨?_, ih (List.not_mem_of_not_mem_cons h)⟩
    rintro next hnext ⟨-, rfl⟩
    exact h (List.mem_cons_of_mem _ (List.mem_of_mem_head? hnext))

/-- No `*/` stands in an open text. -/
theorem not_isInfix (h : IsOpen xs) : ¬ ['*', '/'] <:+: xs := fun hinside =>
  (List.isChain_cons_cons.mp (h.of_isInfix hinside)).1 ⟨rfl, rfl⟩

/-- The line feeds between the lines keep the stars of one from the slashes of the next. -/
theorem unlines {rows : List (List Char)} (h : ∀ row ∈ rows, IsOpen row) :
    IsOpen (unlines rows) := by
  induction rows with
  | nil => exact List.isChain_nil
  | cons row rest ih =>
    rw [List.forall_mem_cons] at h
    have hfeed : IsOpen ['\n'] := by decide
    have hrest : IsOpen ('\n' :: Text.unlines rest) := hfeed.append (ih h.2) (.inl (by decide))
    rw [unlines_cons]
    exact h.1.append hrest (.inr (by rw [List.head?_cons]; decide))

/-- A `*/` in a text that is open up to the slash in its last line is that one. -/
theorem eq_of_append (h : IsOpen (xs ++ ['*'])) {front back : List Char}
    (heq : xs ++ ['*', '/', '\n'] = front ++ '*' :: '/' :: back) : back = ['\n'] := by
  have hsplit : (xs ++ ['*']) ++ ['/', '\n'] = (front ++ ['*', '/']) ++ back := by
    simpa using heq
  rcases List.append_eq_append_iff.mp hsplit with ⟨rest, hfront, hback⟩ | ⟨rest, hopen, -⟩
  · -- The pair ends behind the star: it takes the slash, and not the line feed, with it.
    rcases rest with _ | ⟨c, _ | ⟨c', rest⟩⟩
    · have hlast := congrArg List.getLast? hfront
      simp at hlast
    · exact (List.cons.inj hback).2.symm
    · obtain ⟨rfl, rfl, rfl, rfl⟩ : c = '/' ∧ c' = '\n' ∧ rest = [] ∧ back = [] := by
        simpa [eq_comm] using hback
      have hlast := congrArg List.getLast? hfront
      simp at hlast
  · exact absurd ⟨front, rest, hopen.symm⟩ h.not_isInfix

end IsOpen

/-! ## 2. Backslashes -/

theorem keptOpen_cons {c : Char} {rest : List Char}
    (h : ∀ behind, c = '*' → rest = '/' :: behind → False) :
    keptOpen (c :: rest) = c :: keptOpen rest := by
  rw [keptOpen]
  exact h

theorem head?_keptOpen (cs : List Char) : (keptOpen cs).head? = cs.head? := by
  cases cs using keptOpen.fun_cases_unfolding with
  | case1 rest => rfl
  | case2 c rest hpair => rfl
  | case3 => rfl

theorem getLast?_keptOpen (cs : List Char) : (keptOpen cs).getLast? = cs.getLast? := by
  induction cs using keptOpen.induct with
  | case1 rest ih => simp [keptOpen, List.getLast?_cons, ih]
  | case2 c rest hpair ih =>
    rw [keptOpen_cons hpair, List.getLast?_cons, List.getLast?_cons, ih]
  | case3 => rfl

theorem mem_keptOpen_iff {c : Char} (hc : c ≠ '\\') (cs : List Char) :
    c ∈ keptOpen cs ↔ c ∈ cs := by
  induction cs using keptOpen.induct with
  | case1 rest ih => simp [keptOpen, hc, ih]
  | case2 c' rest hpair ih => rw [keptOpen_cons hpair, List.mem_cons, List.mem_cons, ih]
  | case3 => rfl

/-- **No comment can end in a text that is kept open.** -/
theorem isOpen_keptOpen (cs : List Char) : IsOpen (keptOpen cs) := by
  induction cs using keptOpen.induct with
  | case1 rest ih =>
    have hopening : IsOpen ['*', '\\', '/'] := by decide
    exact hopening.append ih (.inl (by decide))
  | case2 c rest hpair ih =>
    rw [keptOpen_cons hpair]
    refine List.isChain_cons.mpr ⟨?_, ih⟩
    rintro next hnext ⟨hc, rfl⟩
    rw [head?_keptOpen] at hnext
    obtain ⟨behind, hrest⟩ := List.head?_eq_some_iff.mp hnext
    exact hpair behind hc hrest
  | case3 => exact List.isChain_nil

/-! ## 3. The lines of a comment -/

/-- An inner line of a comment, without its line feed. -/
def innerRow (indent line : List Char) : List Char :=
  indent ++ (if line.isEmpty then [' ', '*'] else [' ', '*', ' '] ++ line)

/-- The lines of a comment, without their line feeds. -/
def commentRows (indent : List Char) : List (List Char) → List (List Char)
  | [] => []
  | [line] => [indent ++ ['/', '*', '*', ' '] ++ line ++ [' ', '*', '/']]
  | lines =>
    (indent ++ ['/', '*', '*']) :: (lines.map (innerRow indent) ++ [indent ++ [' ', '*', '/']])

theorem commentRows_of_length {indent : List Char} {ls : List (List Char)} (h : 2 ≤ ls.length) :
    commentRows indent ls =
      (indent ++ ['/', '*', '*']) :: (ls.map (innerRow indent) ++ [indent ++ [' ', '*', '/']]) := by
  rcases ls with _ | ⟨first, _ | ⟨second, rest⟩⟩
  · cases h
  · simp at h
  · rfl

theorem commentChars_eq (indent : List Char) (ls : List (List Char)) :
    commentChars indent ls = unlines (commentRows indent ls) := by
  have hinner : ls.flatMap (commentLine indent) = unlines (ls.map (innerRow indent)) := by
    rw [unlines, List.flatMap_map]
    exact List.flatMap_congr fun line _ => rfl
  rcases ls with _ | ⟨first, _ | ⟨second, rest⟩⟩
  · rfl
  · simp [commentChars, commentRows]
  · rw [commentRows_of_length (by simp), unlines_cons, unlines_append, ← hinner]
    simp [commentChars]

/-- There is one line in a comment exactly where there is one in the documentation. -/
theorem length_commentRows_eq_one_iff {indent : List Char} {ls : List (List Char)} (hne : ls ≠ []) :
    (commentRows indent ls).length = 1 ↔ ls.length = 1 := by
  rcases ls with _ | ⟨first, _ | ⟨second, rest⟩⟩
  · exact absurd rfl hne
  · exact iff_of_true rfl rfl
  · simp [commentRows]

theorem opening_isPrefix_commentChars {indent : List Char} {ls : List (List Char)} (hne : ls ≠ []) :
    indent ++ ['/', '*', '*'] <+: commentChars indent ls := by
  rcases ls with _ | ⟨first, _ | ⟨second, rest⟩⟩
  · exact absurd rfl hne
  · simp [commentChars]
  · simp [commentChars]

theorem isPrefix_innerRow (indent line : List Char) :
    indent ++ [' ', '*'] <+: innerRow indent line := by
  rw [innerRow]
  split <;> simp

section Rows

variable {indent : List Char} (hindent : ∀ c ∈ indent, c = ' ') {ls : List (List Char)}

include hindent

theorem not_mem_indent {c : Char} (hc : c ≠ ' ') : c ∉ indent := fun h => hc (hindent c h)

/-- No line of a comment is empty, and none holds a line feed when those of the documentation hold
    none. -/
theorem of_mem_commentRows (h : ∀ line ∈ ls, '\n' ∉ line) {row : List Char}
    (hrow : row ∈ commentRows indent ls) : row ≠ [] ∧ '\n' ∉ row := by
  have hblank : '\n' ∉ indent := not_mem_indent hindent (by decide)
  have hinner : ∀ line ∈ ls, innerRow indent line ≠ [] ∧ '\n' ∉ innerRow indent line := by
    intro line hline
    rw [innerRow]
    split <;> simp [hblank, h line hline]
  rcases ls with _ | ⟨first, _ | ⟨second, rest⟩⟩
  · cases hrow
  · rw [commentRows, List.mem_singleton] at hrow
    simp [hrow, hblank, h first]
  · rw [commentRows_of_length (by simp), List.mem_cons, List.mem_append, List.mem_map,
      List.mem_singleton] at hrow
    rcases hrow with rfl | ⟨line, hline, rfl⟩ | rfl
    · simp [hblank]
    · exact hinner line hline
    · simp [hblank]

theorem lines_commentChars (h : ∀ line ∈ ls, '\n' ∉ line) :
    lines (commentChars indent ls) = commentRows indent ls := by
  rw [commentChars_eq]
  exact lines_unlines fun row hrow => (of_mem_commentRows hindent h hrow).2

theorem isOpen_opening : IsOpen (indent ++ ['/', '*', '*']) := by
  have hslash : '/' ∉ indent := not_mem_indent hindent (by decide)
  have hstar : '*' ∉ indent := not_mem_indent hindent (by decide)
  have hmark : IsOpen ['/', '*', '*'] := by decide
  exact (IsOpen.of_not_mem hslash).append hmark
    (.inl fun hlast => hstar (List.mem_of_getLast? hlast))

theorem isOpen_innerRow {line : List Char} (h : IsOpen line) : IsOpen (innerRow indent line) := by
  have hslash : '/' ∉ indent := not_mem_indent hindent (by decide)
  rw [innerRow]
  split
  · exact .of_not_mem (by simp [hslash])
  · have hprefix : IsOpen (indent ++ [' ', '*', ' ']) := .of_not_mem (by simp [hslash])
    rw [← List.append_assoc]
    exact hprefix.append h (.inl (by simp))

/-- **A comment is open up to the slash that ends it.** -/
theorem exists_commentChars_eq (hne : ls ≠ []) (h : ∀ line ∈ ls, IsOpen line) :
    ∃ stem, commentChars indent ls = stem ++ ['*', '/', '\n'] ∧ IsOpen (stem ++ ['*']) := by
  rcases ls with _ | ⟨first, _ | ⟨second, rest⟩⟩
  · exact absurd rfl hne
  · refine ⟨indent ++ ['/', '*', '*'] ++ ([' '] ++ first ++ [' ']), by simp [commentChars], ?_⟩
    have hfirst : IsOpen ([' '] ++ first) :=
      IsOpen.append (by decide) (h first List.mem_cons_self) (.inl (by decide))
    have hline : IsOpen ([' '] ++ first ++ [' ', '*']) :=
      hfirst.append (by decide) (.inr (by decide))
    have hall := (isOpen_opening hindent).append hline (.inr (by simp))
    simpa using hall
  · generalize hls : first :: second :: rest = ls at h
    have hrows : ∀ row ∈ (indent ++ ['/', '*', '*']) :: ls.map (innerRow indent), IsOpen row := by
      refine List.forall_mem_cons.mpr ⟨isOpen_opening hindent, List.forall_mem_map.mpr ?_⟩
      exact fun line hline => isOpen_innerRow hindent (h line hline)
    have hslash : '/' ∉ indent ++ [' ', '*'] := by
      simp [not_mem_indent hindent (c := '/') (by decide)]
    refine ⟨unlines ((indent ++ ['/', '*', '*']) :: ls.map (innerRow indent)) ++ (indent ++ [' ']),
      ?_, ?_⟩
    · rw [commentChars_eq, commentRows_of_length (by simp [← hls]), ← List.cons_append,
        unlines_append]
      simp
    · have hall := (IsOpen.unlines hrows).append (.of_not_mem hslash)
        (.inr fun hhead => hslash (List.mem_of_mem_head? hhead))
      simpa using hall

end Rows

/-! ## 4. The lines of a documentation -/

theorem commentLines_eq_nil_iff (doc : String) :
    commentLines doc = [] ↔ trim doc.toList = [] := by
  rw [commentLines, List.map_eq_nil_iff, lines_eq_nil_iff, ← List.head?_eq_none_iff,
    head?_keptOpen, List.head?_eq_none_iff]

/-- A documentation is one line when no line feed stands between its other characters. -/
theorem length_commentLines_eq_one_iff {doc : String} (h : trim doc.toList ≠ []) :
    (commentLines doc).length = 1 ↔ '\n' ∉ trim doc.toList := by
  have hne : keptOpen (trim doc.toList) ≠ [] := by
    rwa [ne_eq, ← List.head?_eq_none_iff, head?_keptOpen, List.head?_eq_none_iff]
  have hlast : (keptOpen (trim doc.toList)).getLast? ≠ some '\n' := by
    rw [getLast?_keptOpen]
    exact getLast?_trim_ne (by decide)
  rw [commentLines, List.length_map, length_lines_eq_one_iff hne hlast,
    mem_keptOpen_iff (by decide)]

theorem of_mem_commentLines {doc : String} {line : List Char} (h : line ∈ commentLines doc) :
    '\n' ∉ line ∧ IsOpen line := by
  obtain ⟨whole, hwhole, rfl⟩ := List.mem_map.mp h
  have hinside := trim_isInfix whole
  exact ⟨fun hmem => newline_not_mem_of_mem_lines hwhole (hinside.subset hmem),
    (isOpen_keptOpen _).of_isInfix (hinside.trans (isInfix_of_mem_lines hwhole))⟩

/-! ## 5. Comments -/

/-- What is written for the documentation `text`, once trimmed: a comment that starts behind the
    indentation, ends with its last line and nowhere before, and has stars in front of its inner
    lines. -/
structure IsComment (indent text out : List Char) : Prop where
  opens : indent ++ ['/', '*', '*'] <+: out
  closes : ['*', '/', '\n'] <:+ out
  closesOnce : ∀ front back, out = front ++ '*' :: '/' :: back → back = ['\n']
  oneLine : (lines out).length = 1 ↔ '\n' ∉ text
  innerLines : '\n' ∈ text → ∃ inner,
    lines out = (indent ++ ['/', '*', '*']) :: (inner ++ [indent ++ [' ', '*', '/']]) ∧
      ∀ line ∈ inner, indent ++ [' ', '*'] <+: line

theorem isComment_commentChars {indent : List Char} (hindent : ∀ c ∈ indent, c = ' ')
    {doc : String} (h : trim doc.toList ≠ []) :
    IsComment indent (trim doc.toList) (commentChars indent (commentLines doc)) := by
  have hne : commentLines doc ≠ [] := fun hnil => h ((commentLines_eq_nil_iff doc).mp hnil)
  have hlines := lines_commentChars hindent fun line (hline : line ∈ commentLines doc) =>
    (of_mem_commentLines hline).1
  obtain ⟨stem, hstem, hopen⟩ := exists_commentChars_eq hindent hne fun line hline =>
    (of_mem_commentLines hline).2
  refine ⟨opening_isPrefix_commentChars hne, ⟨stem, hstem.symm⟩, fun front back hout => ?_, ?_,
    fun hbreak => ?_⟩
  · exact hopen.eq_of_append (hstem ▸ hout)
  · rw [hlines, length_commentRows_eq_one_iff hne, length_commentLines_eq_one_iff h]
  · have hmany : 2 ≤ (commentLines doc).length := by
      have hpos := List.length_pos_iff.mpr hne
      have hnot : (commentLines doc).length ≠ 1 := fun hone =>
        (length_commentLines_eq_one_iff h).mp hone hbreak
      omega
    refine ⟨(commentLines doc).map (innerRow indent), ?_, ?_⟩
    · rw [hlines, commentRows_of_length hmany]
    · exact List.forall_mem_map.mpr fun line _ => isPrefix_innerRow indent line

/-- What is written for a documentation in a line that is indented by so many spaces. -/
def commentBehind (n : Nat) (doc : Option String) : List Char :=
  (comment doc (String.ofList (List.replicate n ' '))).text.toList

theorem commentBehind_eq_nil_iff (n : Nat) (doc : String) :
    commentBehind n (some doc) = [] ↔ ∀ c ∈ doc.toList, isBlank c = true := by
  have hout : commentBehind n (some doc) =
      commentChars (List.replicate n ' ') (commentLines doc) := by
    simp [commentBehind, comment, Draft.write]
  rw [hout, ← trim_eq_nil_iff, ← commentLines_eq_nil_iff]
  refine ⟨fun hnil => ?_, fun hnil => by rw [hnil, commentChars]⟩
  by_contra hne
  obtain ⟨stem, hstem, -⟩ := exists_commentChars_eq (fun _ => List.eq_of_mem_replicate) hne
    fun line hline => (of_mem_commentLines hline).2
  rw [hnil] at hstem
  simp at hstem

/-- **A comment ends where it is meant to end.** Nothing is written for documentation that is
    missing or blank; all other is written as a comment that no part of the text can end. -/
theorem comment_ends_once (n : Nat) (doc : Option String) :
    (commentBehind n doc = [] ↔ ∀ text ∈ doc, ∀ c ∈ text.toList, isBlank c = true) ∧
      (commentBehind n doc ≠ [] → ∃ text ∈ doc,
        IsComment (List.replicate n ' ') (trim text.toList) (commentBehind n doc)) := by
  cases doc with
  | none => exact ⟨by simp [commentBehind, comment, Draft.empty], fun hne => absurd rfl hne⟩
  | some doc =>
    have hblank := commentBehind_eq_nil_iff n doc
    refine ⟨by simpa using hblank, fun hne => ⟨doc, rfl, ?_⟩⟩
    rw [ne_eq, hblank, ← trim_eq_nil_iff] at hne
    simpa [commentBehind, comment, Draft.write] using
      isComment_commentChars (fun _ => List.eq_of_mem_replicate) hne

/-- Runs of stars and slashes, at the ends of lines too, stay inside. -/
example : (comment (some " **//*\n/ *//") "  ").text =
    "  /**\n   * **\\//*\n   * / *\\//\n   */\n" := by
  decide

end WireContract.Bindings.Draft
