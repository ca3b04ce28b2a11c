import WireContract.Proofs.Bindings.Completion
import WireContract.Proofs.Bindings.Nesting
import WireContract.Proofs.Bindings.Phrases
import WireContract.Proofs.Bindings.Pieces

/-!
# The text of a phrase

A phrase is read from the text of a type: the text says where its tokens end and how the brackets
among them match, and what comes first in a phrase says which kind of phrase it is.

* `Phrase.nest`: the tokens of a phrase, with the brackets matched;
* `Phrase.isRead`: no two phrases have the same tokens;
* `Phrase.spaced_nest`: no two words in them stand side by side;
* `tokens_nest_phrase`: the phrase of a type has the tokens of the type;
* `phrase_eq_of_text_eq`: types with the same text have one phrase.
-/

namespace WireContract

open Bindings (Token Nest)

namespace Phrase

/-! ## 1. Tokens -/

/-- Values behind others, in front of a row. -/
def nestValues : List Json → Nest → Nest
  | [], behind => behind
  | v :: rest, behind => .bar (.word (.literal v) (nestValues rest behind))

mutual

/-- The tokens of a phrase, in front of a row. What cannot be written leaves a mark with which no
    phrase starts. -/
def nest : Phrase → Nest → Nest
  | .keyword k, behind => .word (.keyword k) behind
  | .parameter name, behind => .word (.parameter name) behind
  | .values first rest, behind => .word (.literal first) (nestValues rest behind)
  | .reference target args, behind =>
    .word (.reference target args.length)
      (if args.isEmpty then behind else .group .angle (nestPlaces args) behind)
  | .repeated elem, behind =>
    .group .round (nest elem .done) (.group .square .done behind)
  | .places elems, behind => .group .square (nestPlaces elems) behind
  | .entries key value, behind =>
    .word (.keyword .record) (.group .angle (nest key (.comma (nest value .done))) behind)
  | .choice first rest, behind =>
    .group .round (.group .round (nest first .done) (nestMembers rest)) behind
  | .nothing, behind => .bar behind

/-- Phrases with commas between consecutive ones. -/
def nestPlaces : List Phrase → Nest
  | [] => .done
  | p :: rest => nest p (nestFurther rest)

/-- Phrases with a comma in front of each. -/
def nestFurther : List Phrase → Nest
  | [] => .done
  | p :: rest => .comma (nest p (nestFurther rest))

/-- Phrases in brackets, with a bar in front of each. -/
def nestMembers : List Phrase → Nest
  | [] => .done
  | p :: rest => .bar (.group .round (nest p .done) (nestMembers rest))

end

/-! ## 2. Reading -/

/-- Whether a row may follow a phrase: nothing, or what comes behind a comma. -/
def MayFollow : Nest → Prop
  | .done => True
  | .comma _ => True
  | _ => False

theorem mayFollow_nestFurther (ps : List Phrase) : MayFollow (nestFurther ps) := by
  cases ps with
  | nil => rw [nestFurther]; trivial
  | cons p rest => rw [nestFurther]; trivial

theorem nestValues_inj {vs ws : List Json} {r s : Nest} (hr : MayFollow r) (hs : MayFollow s)
    (h : nestValues vs r = nestValues ws s) : vs = ws ∧ r = s := by
  induction vs generalizing ws with
  | nil =>
    cases ws with
    | nil => exact ⟨rfl, h⟩
    | cons w ws =>
      rw [nestValues, nestValues] at h
      exact (h ▸ hr : MayFollow (.bar _)).elim
  | cons v vs ih =>
    cases ws with
    | nil =>
      rw [nestValues, nestValues] at h
      exact (h ▸ hs : MayFollow (.bar _)).elim
    | cons w ws =>
      rw [nestValues, nestValues] at h
      injection h with h
      injection h with hv h
      injection hv with hv
      obtain ⟨rfl, hrest⟩ := ih h
      exact ⟨by rw [hv], hrest⟩

/-- Whether a phrase is read from its tokens, whatever may follow it. -/
def IsRead (p : Phrase) : Prop :=
  ∀ q r s, MayFollow r → MayFollow s → nest p r = nest q s → p = q ∧ r = s

theorem IsRead.eq_of_alone {p q : Phrase} (h : p.IsRead) (heq : nest p .done = nest q .done) :
    p = q :=
  (h q .done .done trivial trivial heq).1

theorem nest_ne_done (p : Phrase) (r : Nest) : nest p r ≠ .done := by
  cases p <;> simp [nest]

theorem nestFurther_inj {ps qs : List Phrase} (ih : ∀ p ∈ ps, p.IsRead)
    (h : nestFurther ps = nestFurther qs) : ps = qs := by
  induction ps generalizing qs with
  | nil =>
    cases qs with
    | nil => rfl
    | cons q qs => simp [nestFurther] at h
  | cons p ps ihps =>
    rw [List.forall_mem_cons] at ih
    cases qs with
    | nil => simp [nestFurther] at h
    | cons q qs =>
      rw [nestFurther, nestFurther] at h
      injection h with h
      obtain ⟨rfl, hrest⟩ :=
        ih.1 q _ _ (mayFollow_nestFurther ps) (mayFollow_nestFurther qs) h
      rw [ihps ih.2 hrest]

theorem nestPlaces_inj {ps qs : List Phrase} (ih : ∀ p ∈ ps, p.IsRead)
    (h : nestPlaces ps = nestPlaces qs) : ps = qs := by
  cases ps with
  | nil =>
    cases qs with
    | nil => rfl
    | cons q qs =>
      rw [nestPlaces, nestPlaces] at h
      exact absurd h.symm (nest_ne_done q _)
  | cons p ps =>
    rw [List.forall_mem_cons] at ih
    cases qs with
    | nil =>
      rw [nestPlaces, nestPlaces] at h
      exact absurd h (nest_ne_done p _)
    | cons q qs =>
      rw [nestPlaces, nestPlaces] at h
      obtain ⟨rfl, hrest⟩ :=
        ih.1 q _ _ (mayFollow_nestFurther ps) (mayFollow_nestFurther qs) h
      rw [nestFurther_inj ih.2 hrest]

theorem nestMembers_inj {ps qs : List Phrase} (ih : ∀ p ∈ ps, p.IsRead)
    (h : nestMembers ps = nestMembers qs) : ps = qs := by
  induction ps generalizing qs with
  | nil =>
    cases qs with
    | nil => rfl
    | cons q qs => simp [nestMembers] at h
  | cons p ps ihps =>
    rw [List.forall_mem_cons] at ih
    cases qs with
    | nil => simp [nestMembers] at h
    | cons q qs =>
      rw [nestMembers, nestMembers] at h
      injection h with h
      injection h with _ hp hrest
      rw [ih.1.eq_of_alone hp, ihps ih.2 hrest]

/-- **No two phrases have the same tokens**: what comes first says which kind of phrase it is, and
    where it ends. -/
theorem isRead (p : Phrase) : p.IsRead := by
  induction p using Phrase.ind with
  | keyword k =>
    intro q r s hr hs h
    cases q with
    | keyword l =>
      simp only [nest, Nest.word.injEq, Token.keyword.injEq] at h
      exact ⟨congrArg keyword h.1, h.2⟩
    | entries key value =>
      simp only [nest, Nest.word.injEq] at h
      exact (h.2 ▸ hr : MayFollow (.group _ _ _)).elim
    | _ => simp [nest] at h
  | parameter name =>
    intro q r s hr hs h
    cases q with
    | parameter other =>
      simp only [nest, Nest.word.injEq, Token.parameter.injEq] at h
      exact ⟨congrArg parameter h.1, h.2⟩
    | _ => simp [nest] at h
  | values first rest =>
    intro q r s hr hs h
    cases q with
    | values other others =>
      simp only [nest, Nest.word.injEq, Token.literal.injEq] at h
      obtain ⟨rfl, hrest⟩ := nestValues_inj hr hs h.2
      exact ⟨by rw [h.1], hrest⟩
    | _ => simp [nest] at h
  | reference target args ih =>
    intro q r s hr hs h
    cases q with
    | reference other others =>
      simp only [nest, Nest.word.injEq, Token.reference.injEq] at h
      obtain ⟨⟨rfl, hlength⟩, hbehind⟩ := h
      cases args with
      | nil =>
        obtain rfl := List.length_eq_zero_iff.mp hlength.symm
        exact ⟨rfl, hbehind⟩
      | cons arg args =>
        cases others with
        | nil => cases hlength
        | cons first others =>
          simp only [List.isEmpty_cons, Bool.false_eq_true, if_false, Nest.group.injEq,
            true_and] at hbehind
          exact ⟨by rw [nestPlaces_inj ih hbehind.1], hbehind.2⟩
    | _ => simp [nest] at h
  | repeated elem ih =>
    intro q r s hr hs h
    cases q with
    | repeated other =>
      simp only [nest, Nest.group.injEq, true_and] at h
      exact ⟨by rw [ih.eq_of_alone h.1], h.2⟩
    | choice first rest =>
      simp only [nest, Nest.group.injEq, true_and] at h
      exact (h.2 ▸ hs : MayFollow (.group _ _ _)).elim
    | _ => simp [nest] at h
  | places elems ih =>
    intro q r s hr hs h
    cases q with
    | places others =>
      simp only [nest, Nest.group.injEq, true_and] at h
      exact ⟨by rw [nestPlaces_inj ih h.1], h.2⟩
    | _ => simp [nest] at h
  | entries key value ihkey ihvalue =>
    intro q r s hr hs h
    cases q with
    | keyword l =>
      simp only [nest, Nest.word.injEq] at h
      exact (h.2 ▸ hs : MayFollow (.group _ _ _)).elim
    | entries other others =>
      simp only [nest, Nest.word.injEq, Nest.group.injEq, true_and] at h
      obtain ⟨rfl, hcomma⟩ := ihkey other (.comma _) (.comma _) trivial trivial h.1
      injection hcomma with hvalue
      exact ⟨by rw [ihvalue.eq_of_alone hvalue], h.2⟩
    | _ => simp [nest] at h
  | choice first rest ihfirst ihrest =>
    intro q r s hr hs h
    cases q with
    | repeated other =>
      simp only [nest, Nest.group.injEq, true_and] at h
      exact (h.2 ▸ hr : MayFollow (.group _ _ _)).elim
    | choice other others =>
      simp only [nest, Nest.group.injEq, true_and] at h
      exact ⟨by rw [ihfirst.eq_of_alone h.1.1, nestMembers_inj ihrest h.1.2], h.2⟩
    | _ => simp [nest] at h
  | nothing =>
    intro q r s hr hs h
    cases q with
    | nothing =>
      simp only [nest, Nest.bar.injEq] at h
      exact ⟨rfl, h⟩
    | _ => simp [nest] at h

/-! ## 3. Spacing -/

/-- Whether a row may stand behind a word, with no two words side by side. -/
def Follows (n : Nest) : Prop := ¬ n.StartsWithWord ∧ n.Spaced fun t => ¬ t.IsMark

theorem follows_done : Follows .done := ⟨not_false, trivial⟩

theorem follows_nestValues (vs : List Json) {behind : Nest} (h : Follows behind) :
    Follows (nestValues vs behind) := by
  induction vs with
  | nil => exact h
  | cons v rest ih => exact ⟨not_false, not_false, ih.1, ih.2⟩

section Spacing

variable {ps : List Phrase}
  (ih : ∀ p ∈ ps, ∀ behind, Follows behind → (nest p behind).Spaced fun t => ¬ t.IsMark)

include ih

theorem follows_nestFurther : Follows (nestFurther ps) := by
  induction ps with
  | nil => rw [nestFurther]; exact follows_done
  | cons p rest ihrest =>
    rw [List.forall_mem_cons] at ih
    rw [nestFurther]
    exact ⟨not_false, ih.1 _ (ihrest ih.2)⟩

theorem spaced_nestPlaces : (nestPlaces ps).Spaced fun t => ¬ t.IsMark := by
  cases ps with
  | nil => rw [nestPlaces]; trivial
  | cons p rest =>
    rw [List.forall_mem_cons] at ih
    rw [nestPlaces]
    exact ih.1 _ (follows_nestFurther ih.2)

theorem spaced_nestMembers : (nestMembers ps).Spaced fun t => ¬ t.IsMark := by
  induction ps with
  | nil => rw [nestMembers]; trivial
  | cons p rest ihrest =>
    rw [List.forall_mem_cons] at ih
    rw [nestMembers]
    exact ⟨ih.1 _ follows_done, ihrest ih.2⟩

end Spacing

/-- No two words of a phrase stand side by side. -/
theorem spaced_nest (p : Phrase) (behind : Nest) (h : Follows behind) :
    (nest p behind).Spaced fun t => ¬ t.IsMark := by
  induction p using Phrase.ind generalizing behind with
  | keyword k => rw [nest]; exact ⟨not_false, h⟩
  | parameter name => rw [nest]; exact ⟨not_false, h⟩
  | values first rest => rw [nest]; exact ⟨not_false, follows_nestValues rest h⟩
  | reference target args ih =>
    rw [nest]
    refine ⟨not_false, ?_⟩
    split
    · exact h
    · exact ⟨not_false, spaced_nestPlaces ih, h.2⟩
  | repeated elem ih => rw [nest]; exact ⟨ih _ follows_done, trivial, h.2⟩
  | places elems ih => rw [nest]; exact ⟨spaced_nestPlaces ih, h.2⟩
  | entries key value ihkey ihvalue =>
    rw [nest]
    exact ⟨not_false, not_false, ihkey _ ⟨not_false, ihvalue _ follows_done⟩, h.2⟩
  | choice first rest ihfirst ihrest =>
    rw [nest]
    exact ⟨⟨ihfirst _ follows_done, spaced_nestMembers ihrest⟩, h.2⟩
  | nothing => rw [nest]; exact h.2

end Phrase

/-! ## 4. The phrase of a type -/

namespace Bindings

open Phrase

variable {types : TypeTable}

theorem tokens_nestValues (vs : List Json) (behind : Nest) :
    (nestValues vs behind).tokens =
      Token.separated .bar (vs.map fun v => [.literal v]) ++ behind.tokens := by
  induction vs with
  | nil => rfl
  | cons v rest ih =>
    rw [nestValues, Nest.tokens, Nest.tokens, ih]
    rfl

section Rows

variable {tys : List Ty}
  (ih : ∀ ty ∈ tys, ∀ behind, (ty.phrase.nest behind).tokens = typeTokens ty ++ behind.tokens)

include ih

theorem tokens_nestFurther : (nestFurther (tys.map Ty.phrase)).tokens =
    Token.separated .comma (tys.map typeTokens) := by
  induction tys with
  | nil => rw [List.map_nil, nestFurther]; rfl
  | cons ty rest ihrest =>
    rw [List.forall_mem_cons] at ih
    rw [List.map_cons, nestFurther, Nest.tokens, ih.1, ihrest ih.2]
    rfl

theorem tokens_nestPlaces : (nestPlaces (tys.map Ty.phrase)).tokens =
    Token.joined .comma (tys.map typeTokens) := by
  cases tys with
  | nil => rw [List.map_nil, nestPlaces]; rfl
  | cons ty rest =>
    rw [List.forall_mem_cons] at ih
    rw [List.map_cons, nestPlaces, ih.1, tokens_nestFurther ih.2]
    rfl

theorem tokens_nestMembers : (nestMembers (tys.map Ty.phrase)).tokens =
    Token.separated .bar ((tys.map typeTokens).map Token.bracketed) := by
  induction tys with
  | nil => rw [List.map_nil, nestMembers]; rfl
  | cons ty rest ihrest =>
    rw [List.forall_mem_cons] at ih
    rw [List.map_cons, nestMembers, Nest.tokens, Nest.tokens, ih.1, ihrest ih.2]
    simp [Token.separated, Token.bracketed, Bracket.opening, Bracket.closing, Nest.tokens]

end Rows

theorem containerTokens_tuple (elems : List (List Token)) : containerTokens .tuple false elems =
    Token.enclosed .squareOpen (Token.joined .comma elems) .squareClose := by
  rcases elems with _ | ⟨first, _ | ⟨second, rest⟩⟩ <;> rfl

theorem tokens_nest_container {kind : ContainerKind} {elems : List Ty} {variadic : Bool}
    (ih : ∀ elem ∈ elems, ∀ behind,
      (elem.phrase.nest behind).tokens = typeTokens elem ++ behind.tokens)
    (h : kind.Admits elems.length variadic) (behind : Nest) :
    ((Phrase.container kind variadic (elems.map Ty.phrase)).nest behind).tokens =
      containerTokens kind variadic (elems.map typeTokens) ++ behind.tokens := by
  have hrepeated : ∀ elem ∈ elems, ((Phrase.repeated elem.phrase).nest behind).tokens =
      Token.bracketed (typeTokens elem) ++ Token.enclosed .squareOpen [] .squareClose ++
        behind.tokens := by
    intro elem helem
    rw [nest, Nest.tokens, ih elem helem]
    simp [Token.bracketed, Bracket.opening, Bracket.closing, Nest.tokens]
  cases h.form with
  | array elem => exact hrepeated elem List.mem_cons_self
  | variadic elem => exact hrepeated elem List.mem_cons_self
  | tuple =>
    rw [Phrase.container_tuple, containerTokens_tuple, nest, Nest.tokens, tokens_nestPlaces ih]
    rfl
  | record key value =>
    have hkey := ih key List.mem_cons_self
    have hvalue := ih value (List.mem_cons_of_mem _ List.mem_cons_self)
    change ((Phrase.entries key.phrase value.phrase).nest behind).tokens = _
    rw [nest, Nest.tokens, Nest.tokens, hkey, Nest.tokens, hvalue]
    simp [containerTokens, Token.joined, Token.separated, Bracket.opening, Bracket.closing,
      Nest.tokens]

/-- **The phrase of a sound type has the tokens of the type.** -/
theorem tokens_nest_phrase {ty : Ty} (h : ty.IsSound types) (behind : Nest) :
    (ty.phrase.nest behind).tokens = typeTokens ty ++ behind.tokens := by
  induction ty using Ty.ind generalizing behind with
  | primitive kind => cases kind <;> rfl
  | any => rfl
  | absent => rfl
  | generic name => rfl
  | named target args ih =>
    have hargs := (Ty.isSound_named_iff.mp h).2
    have hplaces := tokens_nestPlaces fun arg harg => ih arg harg (hargs arg harg)
    rw [Ty.phrase, Ty.phrases_eq_map, nest, Nest.tokens, typeTokens, typeTokensOfAll_eq_map,
      referenceTokens, List.length_map, List.length_map, List.isEmpty_map, List.isEmpty_map,
      List.cons_append]
    split
    · rfl
    · rw [Nest.tokens, hplaces]
      rfl
  | container kind elems variadic ih =>
    obtain ⟨hadmits, helems⟩ := Ty.isSound_container_iff.mp h
    have ih := fun elem helem => ih elem helem (helems elem helem)
    rw [Ty.phrase, Ty.phrases_eq_map, typeTokens, typeTokensOfAll_eq_map]
    exact tokens_nest_container ih hadmits behind
  | union members ih =>
    obtain ⟨hne, hmembers⟩ := Ty.isSound_union_iff.mp h
    have ih := fun member hm => ih member hm (hmembers member hm)
    rw [Ty.phrase, Ty.phrases_eq_map, typeTokens, typeTokensOfAll_eq_map]
    cases members with
    | nil => exact absurd rfl hne
    | cons member rest =>
      rw [List.forall_mem_cons] at ih
      have hrest := tokens_nestMembers ih.2
      rw [List.map_cons, Phrase.union, nest, Nest.tokens, Nest.tokens, ih.1, hrest]
      simp [Token.bracketed, Token.joined, Bracket.opening, Bracket.closing, Nest.tokens]
  | literals values =>
    have hne := ((Ty.isSound_atom_iff rfl).mp h).1
    cases values with
    | nil => exact absurd rfl hne
    | cons v rest =>
      rw [Ty.phrase, Phrase.literals, nest, Nest.tokens, tokens_nestValues]
      rfl
  | optional inner ih =>
    have hinner := ih (Ty.isSound_optional_iff.mp h) .done
    rw [Ty.phrase, nest, nestMembers, nestMembers, nest, Nest.tokens, Nest.tokens, hinner]
    simp [typeTokens, Token.bracketed, Token.enclosed, Token.joined, Token.separated,
      Bracket.opening, Bracket.closing, Nest.tokens]

/-! ## 5. Types with the same text -/

/-- The characters of a type that can be written are those of its phrase. -/
theorem toList_typeText {ty : Ty} (h : ty.IsSound types) :
    (typeText types ty).text.toList = (ty.phrase.nest .done).written types [] := by
  have hfault : (typeText types ty).fault = none := (typeText_completes types ty).fault_iff.mpr h
  rw [typeText_spells types ty hfault, Nest.written_eq, tokens_nest_phrase h, Nest.tokens,
    List.append_nil, List.append_nil, written, typePieces, List.flatMap_map]
  rfl

theorem spaced_nest_phrase {ty : Ty} {parts : List Ty} (h : ty.IsSound types)
    (hparts : ty.parts ⊆ parts) :
    (ty.phrase.nest .done).Spaced fun t => ¬ t.IsMark ∧ t.StandsIn parts := by
  refine (Phrase.spaced_nest ty.phrase .done follows_done).and ?_
  rw [tokens_nest_phrase h, Nest.tokens, List.append_nil]
  exact fun t ht => (standsIn_of_mem_typeTokens ty t ht).mono hparts

/-- **Types with the same text have one phrase.** -/
theorem phrase_eq_of_text_eq {ty other : Ty} (h : Legible types (ty.parts ++ other.parts))
    (hty : ty.IsSound types) (hother : other.IsSound types)
    (htext : (typeText types ty).text = (typeText types other).text) :
    ty.phrase = other.phrase := by
  have hsound : ∀ part ∈ ty.parts ++ other.parts, part.FitsTable types :=
    List.forall_mem_append.mpr ⟨hty, hother⟩
  have hwritten : (ty.phrase.nest .done).written types [] =
      (other.phrase.nest .done).written types [] := by
    rw [← toList_typeText hty, htext, toList_typeText hother]
  have hnest := h.eq_of_written hsound
    (spaced_nest_phrase hty (List.subset_append_left _ _))
    (spaced_nest_phrase hother (List.subset_append_right _ _)) rfl rfl hwritten
  exact (Phrase.isRead ty.phrase).eq_of_alone hnest.1

end Bindings

end WireContract
