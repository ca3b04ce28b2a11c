import WireContract.Proofs.Service.Client
import WireContract.Proofs.Text.Lines

/-!
# Cookies in quotes

A value that stands in quotes, with a backslash in front of every quote and backslash in it, is read
back exactly: the header is cut at semicolons, a piece at its first equals sign, blanks are taken
off and then the quotes and the backslashes, and none of this touches the value.

* `Credentials.unquote_quote`: the quotes and the backslashes;
* `Text.trim_append`: blanks around a text;
* `QuotedCookie`: a cookie as it is written; `entryIn?_text`: what is read of it;
* `quoted_cookies_come_back`: what is read of any row of them.
-/

namespace WireContract

namespace Text

theorem trimEnd_append_of_isBlank {cs behind : List Char}
    (h : ∀ c ∈ behind, isBlank c = true) : trimEnd (cs ++ behind) = trimEnd cs := by
  have hreverse : ∀ c ∈ behind.reverse, isBlank c = true :=
    fun c hc => h c (List.mem_reverse.mp hc)
  rw [trimEnd, trimEnd, List.reverse_append, List.dropWhile_append_of_pos hreverse]

/-- **Blanks around a text are trimmed away.** -/
theorem trim_append {before behind : List Char} (cs : List Char)
    (hbefore : ∀ c ∈ before, isBlank c = true) (hbehind : ∀ c ∈ behind, isBlank c = true) :
    trim (before ++ cs ++ behind) = trim cs := by
  have hstart : trimStart (before ++ cs ++ behind) = trimStart (cs ++ behind) := by
    rw [trimStart, List.append_assoc, List.dropWhile_append_of_pos hbefore, trimStart]
  rw [trim, hstart, trim]
  by_cases hblank : ∀ c ∈ cs, isBlank c = true
  · have hall : trimStart (cs ++ behind) = [] :=
      List.dropWhile_eq_nil_iff.mpr (List.forall_mem_append.mpr ⟨hblank, hbehind⟩)
    have hnone : trimStart cs = [] := List.dropWhile_eq_nil_iff.mpr hblank
    rw [hall, hnone]
  · have hkept : trimStart (cs ++ behind) = trimStart cs ++ behind := by
      have hne : (cs.dropWhile isBlank).isEmpty = false := by
        rw [List.isEmpty_eq_false_iff]
        exact fun hnil => hblank (List.dropWhile_eq_nil_iff.mp hnil)
      rw [trimStart, List.dropWhile_append, hne]
      rfl
    rw [hkept, trimEnd_append_of_isBlank hbehind]

end Text

namespace Service

namespace Credentials

/-! ## 1. Quotes and backslashes -/

/-- A text with a backslash in front of every quote and every backslash. -/
def escape (cs : List Char) : List Char :=
  cs.flatMap fun c => if c = '"' ∨ c = '\\' then ['\\', c] else [c]

/-- A text in quotes. -/
def quote (cs : List Char) : List Char :=
  '"' :: (escape cs ++ ['"'])

theorem unescape_cons_of_ne {c : Char} (h : c ≠ '\\') (rest : List Char) :
    unescape (c :: rest) = c :: unescape rest := by
  rw [unescape]
  · exact fun _ _ heq => absurd heq h
  · exact fun heq => absurd heq h

/-- Backslashes are taken off as they were put in front, also that of a last backslash. -/
theorem unescape_escape (cs : List Char) : unescape (escape cs) = cs := by
  induction cs with
  | nil => rfl
  | cons c rest ih =>
    rw [escape, List.flatMap_cons, ← escape]
    by_cases hc : c = '"' ∨ c = '\\'
    · rw [if_pos hc]
      show c :: unescape (escape rest) = c :: rest
      rw [ih]
    · rw [if_neg hc, List.singleton_append, unescape_cons_of_ne fun heq => hc (.inr heq), ih]

/-- **A quoted text is unquoted to what it was.** -/
theorem unquote_quote (cs : List Char) : unquote (quote cs) = cs := by
  rw [quote, unquote, if_pos ⟨rfl, List.getLast?_concat⟩, List.dropLast_concat, unescape_escape]

theorem mem_escape {c : Char} {cs : List Char} (h : c ∈ escape cs) : c = '\\' ∨ c ∈ cs := by
  obtain ⟨d, hd, hc⟩ := List.mem_flatMap.mp h
  split at hc
  · rcases List.mem_cons.mp hc with rfl | hc
    · exact .inl rfl
    · exact .inr (List.mem_singleton.mp hc ▸ hd)
  · exact .inr (List.mem_singleton.mp hc ▸ hd)

theorem not_mem_quote {cs : List Char} (h : ';' ∉ cs) : ';' ∉ quote cs := by
  intro hmem
  rcases List.mem_cons.mp hmem with heq | hmem
  · cases heq
  rcases List.mem_append.mp hmem with hmem | hmem
  · rcases mem_escape hmem with heq | hmem
    · cases heq
    · exact h hmem
  · cases List.mem_singleton.mp hmem

/-- Nothing is trimmed off quotes. -/
theorem trim_quote (cs : List Char) : Text.trim (quote cs) = quote cs := by
  have hquote : ¬ Text.isBlank '"' = true := by decide
  have hstart : Text.trimStart (quote cs) = quote cs := List.dropWhile_cons_of_neg hquote
  rw [Text.trim, hstart, quote, ← List.cons_append]
  exact List.rdropWhile_concat_neg _ _ _ hquote

end Credentials

/-! ## 2. Cookies -/

/-- A cookie as it is written in a header: in quotes, with blanks around it. -/
structure QuotedCookie where
  name : String
  value : String
  before : List Char := []
  behind : List Char := []

namespace QuotedCookie

/-- The piece of the header. -/
def text (c : QuotedCookie) : List Char :=
  c.before ++ (c.name.toList ++ '=' :: Credentials.quote c.value.toList) ++ c.behind

/-- The name is read as it is written, the value is any text that the header is not cut in, and
    there are blanks around both. -/
structure IsWellFormed (c : QuotedCookie) : Prop where
  isName : IsName c.name
  uncut : ';' ∉ c.value.toList
  before : ∀ b ∈ c.before, Text.isBlank b = true
  behind : ∀ b ∈ c.behind, Text.isBlank b = true

variable {c : QuotedCookie}

theorem not_mem_of_isBlank {cs : List Char} {d : Char} (h : ∀ b ∈ cs, Text.isBlank b = true)
    (hd : ¬ Text.isBlank d = true) : d ∉ cs :=
  fun hmem => hd (h d hmem)

/-- The header is not cut in a cookie. -/
theorem IsWellFormed.not_mem_text (h : c.IsWellFormed) : ';' ∉ c.text := by
  have hbefore := not_mem_of_isBlank h.before (d := ';') (by decide)
  have hbehind := not_mem_of_isBlank h.behind (d := ';') (by decide)
  have hname := h.isName.uncut
  have hvalue := Credentials.not_mem_quote h.uncut
  simp [text, hbefore, hbehind, hname, hvalue]

/-- The first equals sign is the one behind the name, whatever the value has. -/
theorem IsWellFormed.nameAndValue_text (h : c.IsWellFormed) :
    Credentials.nameAndValue c.text = (c.name.toList, Credentials.quote c.value.toList) := by
  have hcut : Text.cutAt '=' c.text =
      some (c.before ++ c.name.toList, Credentials.quote c.value.toList ++ c.behind) := by
    have hbefore := not_mem_of_isBlank h.before (d := '=') (by decide)
    have hfront : '=' ∉ c.before ++ c.name.toList :=
      fun hmem => (List.mem_append.mp hmem).elim hbefore h.isName.undivided
    have htext : c.text = (c.before ++ c.name.toList) ++
        '=' :: (Credentials.quote c.value.toList ++ c.behind) := by
      simp [text]
    rw [htext, Text.cutAt_append hfront]
  have hname : Text.trim (c.before ++ c.name.toList) = c.name.toList := by
    have htrim := Text.trim_append c.name.toList h.before (List.forall_mem_nil _)
    rwa [List.append_nil, h.isName.trimmed] at htrim
  have hvalue : Text.trim (Credentials.quote c.value.toList ++ c.behind) =
      Credentials.quote c.value.toList := by
    have htrim :=
      Text.trim_append (Credentials.quote c.value.toList) (List.forall_mem_nil _) h.behind
    rwa [List.nil_append, Credentials.trim_quote] at htrim
  rw [Credentials.nameAndValue, hcut]
  exact Prod.ext hname hvalue

/-- **A cookie is read as it was meant**, also one whose name is empty. -/
theorem IsWellFormed.entryIn?_text (h : c.IsWellFormed) :
    Credentials.entryIn? c.text = some (c.name, c.value) := by
  have hfull : (Credentials.quote c.value.toList).isEmpty = false := rfl
  rw [Credentials.entryIn?, h.nameAndValue_text, hfull, Bool.and_false, if_neg Bool.false_ne_true,
    Credentials.unquote_quote, String.ofList_toList, String.ofList_toList]

/-- The header that sends cookies. -/
def header (cookies : List QuotedCookie) : String :=
  String.ofList (Text.joinSegments ';' (cookies.map text))

end QuotedCookie

open QuotedCookie

/-! ## 3. Any header of quoted cookies -/

/-- What is read in a header of quoted cookies: one after another. -/
theorem filterMap_entryIn?_header {cookies : List QuotedCookie}
    (h : ∀ c ∈ cookies, c.IsWellFormed) :
    (Text.segments ';' (header cookies).toList).filterMap Credentials.entryIn? =
      cookies.map fun c => (c.name, c.value) := by
  rw [header, String.toList_ofList]
  cases cookies with
  | nil => rfl
  | cons first rest =>
    have huncut : ∀ piece ∈ (first :: rest).map text, ';' ∉ piece :=
      List.forall_mem_map.mpr fun c hc => (h c hc).not_mem_text
    have hread : ∀ c ∈ first :: rest, Credentials.entryIn? c.text = some (c.name, c.value) :=
      fun c hc => (h c hc).entryIn?_text
    rw [Text.segments_joinSegments (by simp) huncut, List.filterMap_map]
    exact (List.filterMap_congr hread).trans (congrFun List.filterMap_eq_map' _)

/-- **Quoted cookies come back exactly.** Whatever the names and the values are, as long as the
    names are read as they are written and no value has a semicolon, and whatever blanks stand
    around the cookies: every name has the value of its last cookie, and no other name has any. -/
theorem quoted_cookies_come_back {cookies : List QuotedCookie} (h : ∀ c ∈ cookies, c.IsWellFormed) :
    (∀ name, (Credentials.ofHeader? (some (header cookies))).get? name =
        Entries.lastOf (cookies.map fun c => (c.name, c.value)) name) ∧
      ∀ name, name ∉ cookies.map (·.name) →
        (Credentials.ofHeader? (some (header cookies))).get? name = none := by
  have hread : ∀ name, (Credentials.ofHeader? (some (header cookies))).get? name =
      Entries.lastOf (cookies.map fun c => (c.name, c.value)) name := by
    intro name
    have hheader : Credentials.ofHeader? (some (header cookies)) =
        Credentials.ofHeader (header cookies) := rfl
    rw [hheader, Credentials.get?_ofHeader, Credentials.lastValue?, filterMap_entryIn?_header h]
  refine ⟨hread, fun name hname => ?_⟩
  rw [hread]
  cases hlast : Entries.lastOf (cookies.map fun c => (c.name, c.value)) name with
  | none => rfl
  | some value =>
    obtain ⟨c, hc, heq⟩ := List.mem_map.mp (Entries.mem_of_lastOf hlast)
    exact absurd (List.mem_map.mpr ⟨c, hc, congrArg Prod.fst heq⟩) hname

/-- A repeated name, the empty name, and values that end with a backslash and a quote or have an
    equals sign and blanks at their ends. -/
def pantry : List QuotedCookie := [
  { name := "theme", value := "dark" },
  { name := "", value := " a=b ", before := [' '] },
  { name := "theme", value := "dark\"er\\", before := [' ', ' '], behind := ['\t'] },
  { name := "q", value := "\"", before := [' '] },
  { name := "session id", value := "" }]

theorem quoted_cookies_come_back_pantry :
    (∀ c ∈ pantry, c.IsWellFormed) ∧
      header pantry =
        "theme=\"dark\"; =\" a=b \";  theme=\"dark\\\"er\\\\\"\t; q=\"\\\"\";session id=\"\"" ∧
      (Credentials.ofHeader? (some (header pantry))).get? "theme" = some "dark\"er\\" ∧
      (Credentials.ofHeader? (some (header pantry))).get? "" = some " a=b " ∧
      (Credentials.ofHeader? (some (header pantry))).get? "sessionid" = none := by
  have hpantry : ∀ c ∈ pantry, c.IsWellFormed := by
    intro c hc
    simp only [pantry, List.mem_cons, List.not_mem_nil, or_false] at hc
    rcases hc with rfl | rfl | rfl | rfl | rfl
    all_goals exact ⟨⟨by decide, by decide, by decide⟩, by decide,
      List.all_eq_true.mp (by decide), List.all_eq_true.mp (by decide)⟩
  obtain ⟨hread, hnone⟩ := quoted_cookies_come_back hpantry
  refine ⟨hpantry, by decide +kernel, (hread "theme").trans ?_, (hread "").trans ?_,
    hnone "sessionid" (by decide)⟩
  · decide
  · decide

end Service

end WireContract
