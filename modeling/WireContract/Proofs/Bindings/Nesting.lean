import WireContract.Proofs.Bindings.TokenText

/-!
# Nested rows of tokens

The brackets in the tokens of an expression match, so that the tokens are a tree. From the
characters that are written the tree is seen again: where a word ends, and which bracket closes
which.

* `Nest`: a row of tokens with the brackets matched;
* `Nest.tokens`, `Nest.written`: the tokens and the characters of such a row;
* `Legible.eq_of_written`: no two such rows are written with the same characters.
-/

namespace WireContract.Bindings

open Json (IsWord StopsRun isRunChar)

/-- The brackets of type expressions. -/
inductive Bracket where
  | round
  | square
  | angle
  deriving DecidableEq, Repr

def Bracket.opening : Bracket → Mark
  | .round => .roundOpen
  | .square => .squareOpen
  | .angle => .angleOpen

def Bracket.closing : Bracket → Mark
  | .round => .roundClose
  | .square => .squareClose
  | .angle => .angleClose

/-- A row of tokens with the brackets matched, given by what comes first and what follows it. -/
inductive Nest where
  | done
  | word (t : Token) (rest : Nest)
  | comma (rest : Nest)
  | bar (rest : Nest)
  | group (b : Bracket) (inside rest : Nest)
  deriving Repr

namespace Nest

/-- The tokens of the row. -/
def tokens : Nest → List Token
  | .done => []
  | .word t rest => t :: tokens rest
  | .comma rest => .mark .comma :: tokens rest
  | .bar rest => .mark .bar :: tokens rest
  | .group b inside rest => Token.enclosed b.opening (tokens inside) b.closing ++ tokens rest

/-- The characters of the row, in front of others. -/
def written (types : TypeTable) : Nest → List Char → List Char
  | .done, behind => behind
  | .word t rest, behind => (t.text types).toList ++ written types rest behind
  | .comma rest, behind => Mark.comma.text.toList ++ written types rest behind
  | .bar rest, behind => Mark.bar.text.toList ++ written types rest behind
  | .group b inside rest, behind =>
    b.opening.text.toList ++
      written types inside (b.closing.text.toList ++ written types rest behind)

theorem written_eq (types : TypeTable) (n : Nest) (behind : List Char) :
    n.written types behind = n.tokens.flatMap (fun t => (t.text types).toList) ++ behind := by
  induction n generalizing behind with
  | done => rfl
  | word t rest ih => rw [written, ih, tokens, List.flatMap_cons, List.append_assoc]
  | comma rest ih => rw [written, ih, tokens, List.flatMap_cons, List.append_assoc]; rfl
  | bar rest ih => rw [written, ih, tokens, List.flatMap_cons, List.append_assoc]; rfl
  | group b inside rest ihinside ihrest =>
    rw [written, ihinside, ihrest, tokens, Token.enclosed, List.cons_append, List.flatMap_cons,
      List.flatMap_append, List.flatMap_append, List.flatMap_singleton]
    simp only [List.append_assoc]
    rfl

/-- Whether the row starts with a word. -/
def StartsWithWord : Nest → Prop
  | .word _ _ => True
  | _ => False

/-- Whether no two words stand side by side, and the words are of a kind. -/
def Spaced (fine : Token → Prop) : Nest → Prop
  | .done => True
  | .word t rest => fine t ∧ ¬ rest.StartsWithWord ∧ Spaced fine rest
  | .comma rest => Spaced fine rest
  | .bar rest => Spaced fine rest
  | .group _ inside rest => Spaced fine inside ∧ Spaced fine rest

/-- What holds of all tokens holds of the words. -/
theorem Spaced.and {fine other : Token → Prop} {n : Nest} (h : n.Spaced fine)
    (hall : ∀ t ∈ n.tokens, other t) : n.Spaced fun t => fine t ∧ other t := by
  induction n with
  | done => trivial
  | word t rest ih =>
    rw [tokens, List.forall_mem_cons] at hall
    exact ⟨⟨h.1, hall.1⟩, h.2.1, ih h.2.2 hall.2⟩
  | comma rest ih =>
    rw [tokens, List.forall_mem_cons] at hall
    exact ih h hall.2
  | bar rest ih =>
    rw [tokens, List.forall_mem_cons] at hall
    exact ih h hall.2
  | group b inside rest ihinside ihrest =>
    rw [tokens, Token.enclosed, List.forall_mem_append, List.forall_mem_cons,
      List.forall_mem_append] at hall
    exact ⟨ihinside h.1 hall.1.2.1, ihrest h.2 hall.2⟩

end Nest

/-! ## What comes first -/

/-- What comes first in a row. -/
inductive Lead where
  | close
  | word
  | comma
  | bar
  | open (b : Bracket)
  deriving DecidableEq, Repr

def Nest.lead : Nest → Lead
  | .done => .close
  | .word _ _ => .word
  | .comma _ => .comma
  | .bar _ => .bar
  | .group b _ _ => .open b

/-- What comes first in a text: the end of it counts as a closing bracket. -/
def leadOf : List Char → Lead
  | [] => .close
  | c :: _ =>
    if c = ')' then .close else if c = ']' then .close else if c = '>' then .close
    else if c = ',' then .comma else if c = '|' then .bar
    else if c = '(' then .open .round else if c = '[' then .open .square
    else if c = '<' then .open .angle else .word

theorem leadOf_opening (b : Bracket) (rest : List Char) :
    leadOf (b.opening.text.toList ++ rest) = .open b := by
  cases b <;> rfl

theorem leadOf_closing (b : Bracket) (rest : List Char) :
    leadOf (b.closing.text.toList ++ rest) = .close := by
  cases b <;> rfl

/-- A character that is no mark comes first in a word. -/
theorem leadOf_cons {c : Char} (h : isRunChar c = true ∨ c = '"') (rest : List Char) :
    leadOf (c :: rest) = .word := by
  have hne : ∀ d : Char, isRunChar d = false → d ≠ '"' → c ≠ d := by
    rintro d hrun hquote rfl
    rcases h with h | h
    · rw [hrun] at h
      cases h
    · exact hquote h
  simp [leadOf, hne ')' rfl (by decide), hne ']' rfl (by decide), hne '>' rfl (by decide),
    hne ',' rfl (by decide), hne '|' rfl (by decide), hne '(' rfl (by decide),
    hne '[' rfl (by decide), hne '<' rfl (by decide)]

theorem leadOf_word {word : List Char} (h : IsWord word) (rest : List Char) :
    leadOf (word ++ rest) = .word := by
  rcases h with ⟨hne, hrun⟩ | ⟨content, rfl⟩
  · cases word with
    | nil => exact absurd rfl hne
    | cons c word => exact leadOf_cons (.inl (hrun c List.mem_cons_self)) _
  · exact leadOf_cons (.inr rfl) _

/-- Where no word comes first, a word in front does not go on. -/
theorem stopsRun_of_leadOf {cs : List Char} (h : leadOf cs ≠ .word) : StopsRun cs := by
  rcases cs with _ | ⟨c, rest⟩
  · rintro c ⟨⟩
  · rintro _ ⟨⟩
    cases hrun : isRunChar c with
    | false => rfl
    | true => exact absurd (leadOf_cons (.inl hrun) rest) h

/-! ## Reading -/

section Reading

variable {types : TypeTable} {parts : List Ty} (h : Legible types parts)
  (hsound : ∀ part ∈ parts, part.FitsTable types)

include h hsound

/-- The row starts in the text as it does by itself. -/
theorem Legible.leadOf_written {n : Nest} (hn : n.Spaced fun t => ¬ t.IsMark ∧ t.StandsIn parts)
    {behind : List Char} (hbehind : leadOf behind = .close) :
    leadOf (n.written types behind) = n.lead := by
  cases n with
  | done => exact hbehind
  | word t rest => exact leadOf_word (h.isWord hsound hn.1.2 hn.1.1) _
  | comma rest => rfl
  | bar rest => rfl
  | group b inside rest => exact leadOf_opening b _

/-- So rows that are written with the same characters start with the same. -/
theorem Legible.lead_eq_of_written {n m : Nest}
    (hn : n.Spaced fun t => ¬ t.IsMark ∧ t.StandsIn parts)
    (hm : m.Spaced fun t => ¬ t.IsMark ∧ t.StandsIn parts) {behind others : List Char}
    (hbehind : leadOf behind = .close) (hothers : leadOf others = .close)
    (heq : n.written types behind = m.written types others) : n.lead = m.lead := by
  rw [← h.leadOf_written hsound hn hbehind, heq, h.leadOf_written hsound hm hothers]

/-- A word in front of a row that starts with none stops there. -/
theorem Legible.stopsRun_written {n : Nest} (hn : n.Spaced fun t => ¬ t.IsMark ∧ t.StandsIn parts)
    (hstart : ¬ n.StartsWithWord) {behind : List Char} (hbehind : leadOf behind = .close) :
    StopsRun (n.written types behind) := by
  refine stopsRun_of_leadOf ?_
  rw [h.leadOf_written hsound hn hbehind]
  cases n with
  | word t rest => exact absurd trivial hstart
  | _ => exact nofun

/-- **No two rows are written with the same characters**, in front of a closing bracket or of
    nothing. -/
theorem Legible.eq_of_written {n m : Nest} (hn : n.Spaced fun t => ¬ t.IsMark ∧ t.StandsIn parts)
    (hm : m.Spaced fun t => ¬ t.IsMark ∧ t.StandsIn parts) {behind others : List Char}
    (hbehind : leadOf behind = .close) (hothers : leadOf others = .close)
    (heq : n.written types behind = m.written types others) : n = m ∧ behind = others := by
  induction n generalizing m behind others with
  | done =>
    have hlead := h.lead_eq_of_written hsound hn hm hbehind hothers heq
    cases m with
    | done => exact ⟨rfl, heq⟩
    | _ => cases hlead
  | word t rest ih =>
    have hlead := h.lead_eq_of_written hsound hn hm hbehind hothers heq
    cases m with
    | word u rest' =>
      obtain ⟨⟨htm, ht⟩, hstart, hrest⟩ := hn
      obtain ⟨⟨hum, hu⟩, hstart', hrest'⟩ := hm
      obtain ⟨htext, hwritten⟩ := (h.isWord hsound ht htm).append_inj (h.isWord hsound hu hum)
        (h.stopsRun_written hsound hrest hstart hbehind)
        (h.stopsRun_written hsound hrest' hstart' hothers) heq
      obtain rfl := h.eq_of_text hsound ht hu htm hum (String.toList_inj.mp htext)
      obtain ⟨rfl, hend⟩ := ih hrest hrest' hbehind hothers hwritten
      exact ⟨rfl, hend⟩
    | _ => cases hlead
  | comma rest ih =>
    have hlead := h.lead_eq_of_written hsound hn hm hbehind hothers heq
    cases m with
    | comma rest' =>
      have hrest' : rest'.Spaced fun t => ¬ t.IsMark ∧ t.StandsIn parts := hm
      have hwritten := (List.append_right_inj Mark.comma.text.toList).mp heq
      obtain ⟨rfl, hend⟩ := ih hn hrest' hbehind hothers hwritten
      exact ⟨rfl, hend⟩
    | _ => cases hlead
  | bar rest ih =>
    have hlead := h.lead_eq_of_written hsound hn hm hbehind hothers heq
    cases m with
    | bar rest' =>
      have hrest' : rest'.Spaced fun t => ¬ t.IsMark ∧ t.StandsIn parts := hm
      have hwritten := (List.append_right_inj Mark.bar.text.toList).mp heq
      obtain ⟨rfl, hend⟩ := ih hn hrest' hbehind hothers hwritten
      exact ⟨rfl, hend⟩
    | _ => cases hlead
  | group b inside rest ihinside ihrest =>
    have hlead := h.lead_eq_of_written hsound hn hm hbehind hothers heq
    cases m with
    | group b' inside' rest' =>
      obtain rfl : b = b' := Lead.open.inj hlead
      obtain ⟨rfl, hclosed⟩ := ihinside hn.1 hm.1 (leadOf_closing b _) (leadOf_closing b _)
        (List.append_cancel_left heq)
      obtain ⟨rfl, hend⟩ := ihrest hn.2 hm.2 hbehind hothers (List.append_cancel_left hclosed)
      exact ⟨rfl, hend⟩
    | _ => cases hlead

end Reading

end WireContract.Bindings
