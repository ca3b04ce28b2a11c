/-!
# White space, trimming and lines

A character is blank when it has the Unicode property White_Space (25 characters, the same set
since Unicode 6.3). Trimming takes blanks off both ends; lines are cut at line feeds.

* `trim_append_trimmed`: what trimming removes is blank, and nothing else is removed.
-/

namespace WireContract.Text

/-! ## 1. The property -/

/-- The code points with the property White_Space, as closed ranges. -/
def blankRanges : List (Nat × Nat) :=
  [(0x09, 0x0D), (0x20, 0x20), (0x85, 0x85), (0xA0, 0xA0), (0x1680, 0x1680), (0x2000, 0x200A),
   (0x2028, 0x2029), (0x202F, 0x202F), (0x205F, 0x205F), (0x3000, 0x3000)]

/-- Whether a closed range of the list holds the code point. -/
def inRanges (ranges : List (Nat × Nat)) (n : Nat) : Bool :=
  ranges.any fun r => decide (r.1 ≤ n) && decide (n ≤ r.2)

/-- Whether the character is white space. -/
def isBlank (c : Char) : Bool :=
  inRanges blankRanges c.toNat

/-! ## 2. Trimming -/

/-- The text without the blanks it starts with. -/
def trimStart (cs : List Char) : List Char :=
  cs.dropWhile isBlank

/-- The text without the blanks it ends with. -/
def trimEnd (cs : List Char) : List Char :=
  (cs.reverse.dropWhile isBlank).reverse

/-- The text without the blanks at both ends. -/
def trim (cs : List Char) : List Char :=
  trimEnd (trimStart cs)

/-- Trimming the end cuts the text in two: what is kept, and blanks. -/
theorem trimEnd_append (cs : List Char) :
    trimEnd cs ++ (cs.reverse.takeWhile isBlank).reverse = cs := by
  unfold trimEnd
  rw [← List.reverse_append, List.takeWhile_append_dropWhile, List.reverse_reverse]

/-- Trimming cuts the text in three: blanks, what is kept, and blanks. -/
theorem trim_append_trimmed (cs : List Char) :
    cs.takeWhile isBlank ++ trim cs ++ ((trimStart cs).reverse.takeWhile isBlank).reverse = cs := by
  unfold trim
  rw [List.append_assoc, trimEnd_append]
  exact List.takeWhile_append_dropWhile

theorem trim_cons_of_isBlank {c : Char} (h : isBlank c = true) (cs : List Char) :
    trim (c :: cs) = trim cs := by
  rw [trim, trimStart, List.dropWhile_cons_of_pos h, trim, trimStart]

/-- What is kept is there, in order. -/
theorem trim_sublist (cs : List Char) : (trim cs).Sublist cs := by
  have hend : (trimEnd (trimStart cs)).Sublist (trimStart cs) := by
    have h := (List.dropWhile_sublist isBlank (l := (trimStart cs).reverse)).reverse
    rwa [List.reverse_reverse] at h
  exact hend.trans (List.dropWhile_sublist isBlank)

/-! ## 3. Lines -/

/-- The lines of a text, without the line feeds. A final line feed ends the last line and starts
    no other; the empty text has no line. -/
def lines : List Char → List (List Char)
  | [] => []
  | c :: rest =>
    if c = '\n' then [] :: lines rest
    else match lines rest with
      | [] => [[c]]
      | line :: more => (c :: line) :: more

end WireContract.Text
