import Mathlib.Tactic.SplitIfs
import WireContract.Json.Printer
import WireContract.Proofs.Type.Soundness
import WireContract.Text.Cut
import WireContract.Text.Identifier

/-!
# The text of a value without parts

A value without parts is written as one word. A bare word is a row of letters, digits, points and
signs, which goes on as far as such characters follow; a quoted one goes on to the quote that is not
escaped. So it is seen in a text where the value ends. A number is never written as an identifier.

* `IsWord`: the texts of either kind;
* `quotedChars_append_inj`, `IsWord.append_inj`: where a word ends;
* `quotedChars_injective`: what a quoted word says;
* `IsWord.newline_not_mem`: that it is one line;
* `Number.isRun_render`, `render_mem_of_isIdentifier`: numbers, and what else may look like a name;
* `isWord_render`: values without parts.
-/

namespace WireContract.Json

open Text (isIdentifier isIdentifierChars isIdentifierPart isIdentifierStart)

/-! ## 1. Quoted words -/

/-- What is behind the quote that ends a string. -/
def behindString : List Char → List Char
  | '\\' :: _ :: rest => behindString rest
  | '"' :: rest => rest
  | _ :: rest => behindString rest
  | [] => []

theorem behindString_cons {c : Char} (hquote : c ≠ '"') (hslash : c ≠ '\\') (rest : List Char) :
    behindString (c :: rest) = behindString rest := by
  rw [behindString]
  · rintro d others heq -
    exact hslash heq
  · exact hquote

theorem hexDigit_plain : ∀ n < 16, hexDigit n ≠ '"' ∧ hexDigit n ≠ '\\' := by decide

/-- No character of a string ends it. -/
theorem behindString_escaped (c : Char) (rest : List Char) :
    behindString (escaped c ++ rest) = behindString rest := by
  unfold escaped
  split_ifs with hquote hslash _ _ _ _ _ hcontrol
  · rfl
  · rfl
  · rfl
  · rfl
  · rfl
  · rfl
  · rfl
  · have hhigh := hexDigit_plain (c.toNat / 16) (by omega)
    have hlow := hexDigit_plain (c.toNat % 16) (by omega)
    change behindString (hexDigit (c.toNat / 16) :: hexDigit (c.toNat % 16) :: rest) = _
    rw [behindString_cons hhigh.1 hhigh.2, behindString_cons hlow.1 hlow.2]
  · exact behindString_cons hquote hslash rest

theorem behindString_flatMap_escaped (cs rest : List Char) :
    behindString (cs.flatMap escaped ++ '"' :: rest) = rest := by
  induction cs with
  | nil => rfl
  | cons c cs ih => rw [List.flatMap_cons, List.append_assoc, behindString_escaped, ih]

/-- **A quoted text ends where it ends**, whatever follows. -/
theorem quotedChars_append_inj {cs ds rest others : List Char}
    (h : quotedChars cs ++ rest = quotedChars ds ++ others) :
    quotedChars cs = quotedChars ds ∧ rest = others := by
  have hbehind : ∀ cs rest : List Char,
      behindString ((quotedChars cs ++ rest).drop 1) = rest := fun cs rest => by
    rw [quotedChars, List.cons_append, List.drop_one, List.tail_cons, List.append_assoc]
    exact behindString_flatMap_escaped cs rest
  have hrest : rest = others := by rw [← hbehind cs rest, h, hbehind]
  rw [hrest] at h
  exact ⟨List.append_cancel_right h, hrest⟩

/-- The value of a digit of the base sixteen. -/
def hexValue (c : Char) : Nat :=
  if c.isDigit then c.toNat - '0'.toNat else c.toNat - 'a'.toNat + 10

theorem hexValue_hexDigit : ∀ n < 16, hexValue (hexDigit n) = n := by decide

/-- The character that an escape stands for, by the character behind the backslash and what
    follows. -/
def escapeValue : Char → List Char → Char
  | 'u', _ :: _ :: high :: low :: _ => Char.ofNat (hexValue high * 16 + hexValue low)
  | 'b', _ => '\x08'
  | 'f', _ => '\x0c'
  | 'n', _ => '\n'
  | 'r', _ => '\r'
  | 't', _ => '\t'
  | c, _ => c

/-- The character that the front of a string stands for. -/
def frontChar : List Char → Option Char
  | '\\' :: c :: rest => some (escapeValue c rest)
  | cs => cs.head?

theorem frontChar_escaped (c : Char) (rest : List Char) :
    frontChar (escaped c ++ rest) = some c := by
  unfold escaped
  split_ifs with hquote hslash hback hfeed hbreak hreturn htab hcontrol
  · rw [hquote]; rfl
  · rw [hslash]; rfl
  · rw [hback]; rfl
  · rw [hfeed]; rfl
  · rw [hbreak]; rfl
  · rw [hreturn]; rfl
  · rw [htab]; rfl
  · have hvalue : c.toNat / 16 * 16 + c.toNat % 16 = c.toNat := Nat.div_add_mod' _ _
    change some (Char.ofNat (hexValue (hexDigit (c.toNat / 16)) * 16 +
      hexValue (hexDigit (c.toNat % 16)))) = some c
    rw [hexValue_hexDigit _ (by omega), hexValue_hexDigit _ (by omega), hvalue, Char.ofNat_toNat]
  · rw [List.singleton_append, frontChar]
    · rfl
    · intro d others heq
      exact hslash (List.cons.inj heq).1

/-- **Different texts are quoted differently.** -/
theorem quotedChars_injective {cs ds : List Char} (h : quotedChars cs = quotedChars ds) :
    cs = ds := by
  have hescaped : cs.flatMap escaped = ds.flatMap escaped :=
    List.append_cancel_right (List.cons.inj h).2
  clear h
  induction cs generalizing ds with
  | nil =>
    cases ds with
    | nil => rfl
    | cons d ds =>
      have hfront := frontChar_escaped d (ds.flatMap escaped)
      rw [← List.flatMap_cons, ← hescaped] at hfront
      cases hfront
  | cons c cs ih =>
    cases ds with
    | nil =>
      have hfront := frontChar_escaped c (cs.flatMap escaped)
      rw [← List.flatMap_cons, hescaped] at hfront
      cases hfront
    | cons d ds =>
      have hfront := frontChar_escaped c (cs.flatMap escaped)
      rw [← List.flatMap_cons, hescaped, List.flatMap_cons, frontChar_escaped] at hfront
      obtain rfl := Option.some.inj hfront
      rw [List.flatMap_cons, List.flatMap_cons] at hescaped
      rw [ih (List.append_cancel_left hescaped)]

/-! ## 2. Words -/

/-- What bare words are made of. -/
def isRunChar (c : Char) : Bool := isIdentifierPart c || c == '.' || c == '+' || c == '-'

/-- A bare word. -/
def IsRun (cs : List Char) : Prop := cs ≠ [] ∧ ∀ c ∈ cs, isRunChar c = true

/-- A word, bare or quoted. -/
def IsWord (cs : List Char) : Prop := IsRun cs ∨ ∃ content, cs = quotedChars content

/-- Whether a bare word does not go on in a text. -/
def StopsRun (rest : List Char) : Prop := ∀ c ∈ rest.head?, isRunChar c = false

/-- **A word ends where no more of it can follow.** -/
theorem IsWord.append_inj {word other rest others : List Char} (hword : IsWord word)
    (hother : IsWord other) (hrest : StopsRun rest) (hothers : StopsRun others)
    (h : word ++ rest = other ++ others) : word = other ∧ rest = others := by
  -- A bare word has no quote in front.
  have hmixed : ∀ {run content rest others : List Char}, IsRun run →
      run ++ rest ≠ quotedChars content ++ others := by
    rintro (_ | ⟨c, run⟩) content rest others ⟨hne, hrun⟩ heq
    · exact hne rfl
    · have hquote : c = '"' := (List.cons.inj heq).1
      have hc := hrun c List.mem_cons_self
      rw [hquote] at hc
      exact absurd hc (by decide)
  rcases hword with hrun | ⟨content, rfl⟩ <;> rcases hother with hrun' | ⟨content', rfl⟩
  · have hsame : word = other := by
      rw [← Text.takeWhile_front hrun.2 hrest, h, Text.takeWhile_front hrun'.2 hothers]
    rw [hsame] at h
    exact ⟨hsame, List.append_cancel_left h⟩
  · exact absurd h (hmixed hrun)
  · exact absurd h.symm (hmixed hrun')
  · exact quotedChars_append_inj h

/-- A quoted text is one line, whatever is quoted. -/
theorem newline_not_mem_quotedChars (cs : List Char) : '\n' ∉ quotedChars cs := by
  have hdigit : ∀ n < 16, hexDigit n ≠ '\n' := by decide
  have hescaped : ∀ c, '\n' ∉ escaped c := by
    intro c
    unfold escaped
    split_ifs with _ _ _ _ hbreak _ _ hcontrol
    · decide
    · decide
    · decide
    · decide
    · decide
    · decide
    · decide
    · have hhigh := hdigit (c.toNat / 16) (by omega)
      have hlow := hdigit (c.toNat % 16) (by omega)
      simp [hhigh.symm, hlow.symm]
    · simpa [eq_comm] using hbreak
  simp [quotedChars, hescaped]

theorem newline_not_mem_quoted (s : String) : '\n' ∉ (quoted s).toList := by
  rw [quoted, String.toList_ofList]
  exact newline_not_mem_quotedChars s.toList

/-- **So is every word.** -/
theorem IsWord.newline_not_mem {cs : List Char} (h : IsWord cs) : '\n' ∉ cs := by
  rcases h with hrun | ⟨content, rfl⟩
  · exact fun hmem => absurd (hrun.2 '\n' hmem) (by decide)
  · exact newline_not_mem_quotedChars content

/-! ## 3. Identifiers -/

/-- What an identifier is made of. -/
theorem forall_isIdentifierPart {cs : List Char} (h : isIdentifierChars cs = true) :
    ∀ c ∈ cs, isIdentifierPart c = true := by
  cases cs with
  | nil => exact fun c hc => absurd hc List.not_mem_nil
  | cons c rest =>
    rw [isIdentifierChars, Bool.and_eq_true, List.all_eq_true] at h
    exact List.forall_mem_cons.mpr ⟨by rw [isIdentifierPart, h.1, Bool.true_or], h.2⟩

theorem isRunChar_of_isIdentifierPart {c : Char} (h : isIdentifierPart c = true) :
    isRunChar c = true := by
  rw [isRunChar, h]
  rfl

/-- An identifier is a bare word. -/
theorem isRun_of_isIdentifier {name : String} (h : isIdentifier name = true) :
    IsRun name.toList := by
  refine ⟨fun hnil => ?_, fun c hc => ?_⟩
  · rw [isIdentifier, hnil] at h
    cases h
  · exact isRunChar_of_isIdentifierPart (forall_isIdentifierPart h c hc)

theorem newline_not_mem_of_isIdentifier {name : String} (h : isIdentifier name = true) :
    '\n' ∉ name.toList :=
  IsWord.newline_not_mem (.inl (isRun_of_isIdentifier h))

/-! ## 4. Numbers -/

theorem isRunChar_of_isDigit {c : Char} (h : c.isDigit = true) : isRunChar c = true :=
  isRunChar_of_isIdentifierPart (by rw [isIdentifierPart, h, Bool.or_true])

/-- No identifier starts with a digit. -/
theorem isIdentifierStart_of_isDigit {c : Char} (h : c.isDigit = true) :
    isIdentifierStart c = false := by
  have hnot : ∀ d : Char, d.isDigit = false → (c == d) = false := by
    intro d hd
    refine beq_eq_false_iff_ne.mpr fun heq => ?_
    rw [heq, hd] at h
    cases h
  have hhigh : c.val.toNat ≤ 57 :=
    UInt32.le_iff_toNat_le.mp (of_decide_eq_true (Bool.and_eq_true_iff.mp h).2)
  have hupper : c.isUpper = false := by
    refine decide_eq_false fun hletter => ?_
    have hlow : 65 ≤ c.val.toNat := UInt32.le_iff_toNat_le.mp hletter.1
    omega
  have hlower : c.isLower = false := by
    refine Bool.and_eq_false_iff.mpr (.inl (decide_eq_false fun hletter => ?_))
    have hlow : 97 ≤ c.val.toNat := UInt32.le_iff_toNat_le.mp hletter
    omega
  have halpha : c.isAlpha = false := Bool.or_eq_false_iff.mpr ⟨hupper, hlower⟩
  rw [isIdentifierStart, halpha, hnot '_' rfl, hnot '$' rfl]
  rfl

theorem isDigit_of_mem_toDigits {n : Nat} : ∀ c ∈ Nat.toDigits 10 n, c.isDigit = true :=
  fun _ hc => Nat.isDigit_of_mem_toDigits (by decide) (by decide) hc

theorem isDigit_of_mem_ofScaled (digits : Nat) (exponent : Int) :
    ∀ c ∈ (Binary64.Decimal.ofScaled digits exponent).digits, c.isDigit = true := by
  intro c hc
  have hkept := (List.dropWhile_suffix _).subset (List.mem_reverse.mp hc)
  exact isDigit_of_mem_toDigits c (List.mem_reverse.mp hkept)

/-- The digits of a floating-point number are digits, found on a grid or not. -/
theorem isDigit_of_mem_shortest (magnitude : Nat) :
    ∀ c ∈ (Binary64.shortest magnitude).digits, c.isDigit = true := by
  have hgetD : ∀ (hit : Option Binary64.Decimal) (fallback : Binary64.Decimal),
      (∀ d, hit = some d → ∀ c ∈ d.digits, c.isDigit = true) →
        (∀ c ∈ fallback.digits, c.isDigit = true) →
          ∀ c ∈ (hit.getD fallback).digits, c.isDigit = true := by
    rintro (_ | d) fallback hhit hfallback
    · exact hfallback
    · exact hhit d rfl
  refine hgetD _ _ (fun d hd => ?_) (isDigit_of_mem_ofScaled _ _)
  obtain ⟨n, -, hn⟩ := List.exists_of_findSome?_eq_some hd
  obtain ⟨digits, -, rfl⟩ := Option.map_eq_some_iff.mp hn
  exact isDigit_of_mem_ofScaled digits _

theorem isRunChar_of_mem_withPoint {digits : List Char} (h : ∀ c ∈ digits, isRunChar c = true)
    (n : Nat) : ∀ c ∈ withPoint digits n, isRunChar c = true := by
  have hfilled : ∀ c ∈ (digits ++ List.replicate n '0').take n, isRunChar c = true := by
    intro c hc
    rcases List.mem_append.mp (List.mem_of_mem_take hc) with hdigit | hzero
    · exact h c hdigit
    · rw [List.eq_of_mem_replicate hzero]
      rfl
  have hor : ∀ cs : List Char, (∀ c ∈ cs, isRunChar c = true) →
      ∀ c ∈ (if cs.isEmpty then ['0'] else cs), isRunChar c = true := by
    intro cs hcs
    split
    · exact List.forall_mem_singleton.mpr rfl
    · exact hcs
  refine List.forall_mem_append.mpr ⟨hor _ hfilled, List.forall_mem_cons.mpr ⟨rfl, hor _ ?_⟩⟩
  exact fun c hc => h c (List.mem_of_mem_drop hc)

/-- A decimal is a bare word, and has a point or a sign in it. -/
theorem decimalChars_run {d : Binary64.Decimal} (h : ∀ c ∈ d.digits, c.isDigit = true) :
    (∀ c ∈ decimalChars d, isRunChar c = true) ∧
      ∃ c ∈ decimalChars d, isIdentifierPart c = false := by
  have hdigits : ∀ c ∈ d.digits, isRunChar c = true := fun c hc => isRunChar_of_isDigit (h c hc)
  have hpoint : ∀ digits n, ∃ c ∈ withPoint digits n, isIdentifierPart c = false :=
    fun digits n => ⟨'.', List.mem_append_right _ List.mem_cons_self, rfl⟩
  have hscientific : ∀ sign : Char, isRunChar sign = true → isIdentifierPart sign = false →
      let cs := d.digits.take 1 ++
        (if (d.digits.drop 1).isEmpty then [] else '.' :: d.digits.drop 1) ++
          'e' :: sign :: Nat.toDigits 10 d.power.natAbs
      (∀ c ∈ cs, isRunChar c = true) ∧ ∃ c ∈ cs, isIdentifierPart c = false := by
    intro sign hrun hsign
    have hfraction : ∀ c ∈ (if (d.digits.drop 1).isEmpty then [] else '.' :: d.digits.drop 1),
        isRunChar c = true := by
      split
      · exact fun c hc => absurd hc List.not_mem_nil
      · exact List.forall_mem_cons.mpr ⟨rfl, fun c hc => hdigits c (List.mem_of_mem_drop hc)⟩
    have hfirst : ∀ c ∈ d.digits.take 1, isRunChar c = true :=
      fun c hc => hdigits c (List.mem_of_mem_take hc)
    have hpower : ∀ c ∈ Nat.toDigits 10 d.power.natAbs, isRunChar c = true :=
      fun c hc => isRunChar_of_isDigit (isDigit_of_mem_toDigits c hc)
    refine ⟨List.forall_mem_append.mpr ⟨List.forall_mem_append.mpr ⟨hfirst, hfraction⟩, ?_⟩, sign,
      List.mem_append_right _ (List.mem_cons_of_mem _ List.mem_cons_self), hsign⟩
    exact List.forall_mem_cons.mpr ⟨rfl, List.forall_mem_cons.mpr ⟨hrun, hpower⟩⟩
  unfold decimalChars
  split_ifs
  · exact ⟨isRunChar_of_mem_withPoint hdigits _, hpoint _ _⟩
  · refine ⟨isRunChar_of_mem_withPoint (List.forall_mem_append.mpr ⟨fun c hc => ?_, hdigits⟩) _,
      hpoint _ _⟩
    rw [List.eq_of_mem_replicate hc]
    rfl
  · exact hscientific '-' rfl rfl
  · exact hscientific '+' rfl rfl

/-- A floating-point number is a bare word, and has a point or a sign in it. -/
theorem floatChars_run (x : Binary64) :
    (∀ c ∈ floatChars x, isRunChar c = true) ∧
      ∃ c ∈ floatChars x, isIdentifierPart c = false := by
  have hsign : ∀ c ∈ (if x.negative then ['-'] else []), isRunChar c = true := by
    split
    · exact List.forall_mem_singleton.mpr rfl
    · exact fun c hc => absurd hc List.not_mem_nil
  have hmagnitude : (∀ c ∈ (if x.magnitude = 0 then ['0', '.', '0']
        else decimalChars (Binary64.shortest x.magnitude)), isRunChar c = true) ∧
      ∃ c ∈ (if x.magnitude = 0 then ['0', '.', '0']
        else decimalChars (Binary64.shortest x.magnitude)), isIdentifierPart c = false := by
    split
    · exact ⟨List.all_eq_true.mp rfl, '.', List.mem_cons_of_mem _ List.mem_cons_self, rfl⟩
    · exact decimalChars_run (isDigit_of_mem_shortest x.magnitude)
  obtain ⟨hrun, c, hc, hpart⟩ := hmagnitude
  exact ⟨List.forall_mem_append.mpr ⟨hsign, hrun⟩, c, List.mem_append_right _ hc, hpart⟩

/-- An integer is a bare word and starts with a digit or the sign. -/
theorem integer_run (i : Int) :
    IsRun (toString i).toList ∧ isIdentifierChars (toString i).toList = false := by
  have hdigits : ∀ n : Nat, (toString n).toList = Nat.toDigits 10 n := fun n => Nat.toList_repr
  have hall : ∀ n : Nat, ∀ c ∈ Nat.toDigits 10 n, isRunChar c = true :=
    fun n c hc => isRunChar_of_isDigit (isDigit_of_mem_toDigits c hc)
  cases i with
  | ofNat n =>
    change IsRun (toString n).toList ∧ isIdentifierChars (toString n).toList = false
    rw [hdigits]
    refine ⟨⟨Nat.toDigits_ne_nil, hall n⟩, ?_⟩
    cases hn : Nat.toDigits 10 n with
    | nil => rfl
    | cons c rest =>
      have hdigit : c.isDigit = true := isDigit_of_mem_toDigits c (hn ▸ List.mem_cons_self)
      rw [isIdentifierChars, isIdentifierStart_of_isDigit hdigit, Bool.false_and]
  | negSucc n =>
    change IsRun ("-" ++ toString (n + 1)).toList ∧
      isIdentifierChars ("-" ++ toString (n + 1)).toList = false
    rw [String.toList_append, hdigits]
    exact ⟨⟨List.cons_ne_nil _ _, List.forall_mem_cons.mpr ⟨rfl, hall (n + 1)⟩⟩, rfl⟩

/-- **A number is a bare word** and no identifier. -/
theorem Number.isRun_render (n : Number) :
    IsRun n.render.toList ∧ isIdentifier n.render = false := by
  cases n with
  | integer i => exact integer_run i
  | float x =>
    obtain ⟨hrun, c, hc, hpart⟩ := floatChars_run x
    rw [Number.render, isIdentifier, String.toList_ofList]
    refine ⟨⟨List.ne_nil_of_mem hc, hrun⟩, Bool.eq_false_iff.mpr fun hident => ?_⟩
    rw [forall_isIdentifierPart hident c hc] at hpart
    cases hpart

/-! ## 5. Values -/

/-- **A value without parts is written as one word.** -/
theorem isWord_render {v : Json} (h : v.IsScalar) : IsWord v.render.toList := by
  cases v with
  | null => exact .inl (isRun_of_isIdentifier (by decide))
  | bool b => cases b <;> exact .inl (isRun_of_isIdentifier (by decide))
  | number n => exact .inl n.isRun_render.1
  | string s => exact .inr ⟨s.toList, String.toList_ofList⟩
  | array items => exact h.elim
  | object members => exact h.elim

/-- Of the values without parts only null and the truth values are written as identifiers. -/
theorem render_mem_of_isIdentifier {v : Json} (h : v.IsScalar)
    (hident : isIdentifier v.render = true) : v.render ∈ ["null", "true", "false"] := by
  cases v with
  | null => decide
  | bool b => cases b <;> decide
  | number n =>
    change isIdentifier n.render = true at hident
    rw [n.isRun_render.2] at hident
    cases hident
  | string s =>
    change isIdentifierChars (quoted s).toList = true at hident
    rw [quoted, String.toList_ofList, quotedChars] at hident
    cases hident
  | array items => exact h.elim
  | object members => exact h.elim

end WireContract.Json
