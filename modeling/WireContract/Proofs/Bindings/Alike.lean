import WireContract.Proofs.Bindings.Meaning

/-!
# Types that are written alike

Three equations say which different types are written with the same text: a list is written like a
tuple of any length, an optional type like the union with absence, and the literal null like the
type of null. Everything else about a type can be read off its text.

* `Ty.Alike`: the congruence that the equations generate;
* `Phrase.toTy`, `alike_toTy`: a type for every phrase, to which all types of the phrase are alike;
* `Alike.phrase_eq`, `Alike.isSound_iff`: what alike types have in common;
* `same_text_iff_alike`: types have the same text exactly if they are alike.
-/

namespace WireContract

/-! ## 1. The congruence -/

namespace Ty

/-- Types that are written alike: three equations, and what follows from them for types that are
    built alike. -/
inductive Alike : Ty → Ty → Prop where
  /-- A list of items of one type, and a tuple of any length of them. Lists do not look at the
      mark that tells such tuples from others. -/
  | array (elem : Ty) (variadic : Bool) :
      Alike (.container .array [elem] variadic) (.variadic elem)
  | optional (inner : Ty) : Alike (.optional inner) (.union [inner, .absent])
  | null : Alike (.literals [.null]) .null
  | refl (ty : Ty) : Alike ty ty
  | symm {ty other : Ty} (h : Alike ty other) : Alike other ty
  | trans {first second third : Ty} (h : Alike first second) (h' : Alike second third) :
      Alike first third
  | arg (target : DefId) (front back : List Ty) {ty other : Ty} (h : Alike ty other) :
      Alike (.named target (front ++ ty :: back)) (.named target (front ++ other :: back))
  | elem (kind : ContainerKind) (variadic : Bool) (front back : List Ty) {ty other : Ty}
      (h : Alike ty other) : Alike (.container kind (front ++ ty :: back) variadic)
        (.container kind (front ++ other :: back) variadic)
  | member (front back : List Ty) {ty other : Ty} (h : Alike ty other) :
      Alike (.union (front ++ ty :: back)) (.union (front ++ other :: back))
  | inner {ty other : Ty} (h : Alike ty other) : Alike (.optional ty) (.optional other)

/-- All that is inside a type can be exchanged, if every one can. -/
theorem Alike.all (whole : List Ty → Ty) {f : Ty → Ty}
    (hwhole : ∀ front back ty other, Alike ty other →
      Alike (whole (front ++ ty :: back)) (whole (front ++ other :: back)))
    {tys : List Ty} (h : ∀ ty ∈ tys, Alike ty (f ty)) (front : List Ty) :
    Alike (whole (front ++ tys)) (whole (front ++ tys.map f)) := by
  induction tys generalizing front with
  | nil => exact .refl _
  | cons ty rest ih =>
    rw [List.forall_mem_cons] at h
    have hrest := ih h.2 (front ++ [f ty])
    rw [List.append_assoc, List.append_assoc, List.singleton_append, List.singleton_append] at hrest
    exact (hwhole front rest ty (f ty) h.1).trans hrest

end Ty

/-! ## 2. A type for every phrase -/

namespace Phrase

mutual

/-- A type with the phrase. The word for records is no phrase by itself. -/
def toTy : Phrase → Ty
  | .keyword .boolean => .bool
  | .keyword .number => .number
  | .keyword .string => .string
  | .keyword .any => .any
  | .keyword .undefined => .absent
  | .keyword .record => .any
  | .parameter name => .generic name
  | .values first rest => .literals (first :: rest)
  | .reference target args => .named target (toTys args)
  | .repeated elem => .variadic (toTy elem)
  | .places elems => .tuple (toTys elems)
  | .entries key value => .record (toTy key) (toTy value)
  | .choice first rest => .union (toTy first :: toTys rest)
  | .nothing => .union []

def toTys : List Phrase → List Ty
  | [] => []
  | p :: rest => toTy p :: toTys rest

end

theorem toTys_eq_map (ps : List Phrase) : toTys ps = ps.map toTy := by
  induction ps with
  | nil => rfl
  | cons p rest ih => rw [toTys, ih, List.map_cons]

end Phrase

namespace Ty

open Bindings (Legible typeText)

theorem toTys_phrases (tys : List Ty) :
    Phrase.toTys (phrases tys) = tys.map fun ty => ty.phrase.toTy := by
  rw [phrases_eq_map, Phrase.toTys_eq_map, List.map_map]
  rfl

section Sound

variable {types : TypeTable}

/-- A container that its kind allows, with elements that are alike to those of their phrases. -/
theorem alike_toTy_container {kind : ContainerKind} {elems : List Ty} {variadic : Bool}
    (h : kind.Admits elems.length variadic) (ih : ∀ elem ∈ elems, Alike elem elem.phrase.toTy) :
    Alike (.container kind elems variadic) (phrase (.container kind elems variadic)).toTy := by
  have hall : ∀ kind variadic, Alike (.container kind elems variadic)
      (.container kind (elems.map fun ty => ty.phrase.toTy) variadic) := fun kind variadic =>
    Alike.all (fun tys => .container kind tys variadic)
      (fun front back _ _ h => .elem kind variadic front back h) ih []
  rw [phrase]
  cases h.form with
  | array elem => exact (hall .array variadic).trans (.array _ variadic)
  | variadic elem => exact hall .tuple true
  | tuple =>
    rw [phrases_eq_map, Phrase.container_tuple, Phrase.toTy, ← phrases_eq_map, toTys_phrases]
    exact hall .tuple false
  | record key value => exact hall .record false

/-- **A type that can be written is alike to the one of its phrase.** -/
theorem alike_toTy {ty : Ty} (h : ty.IsSound types) : Alike ty ty.phrase.toTy := by
  induction ty using Ty.ind with
  | primitive kind =>
    cases kind with
    | null => exact .symm .null
    | _ => exact .refl _
  | any => exact .refl _
  | absent => exact .refl _
  | generic name => exact .refl _
  | named target args ih =>
    obtain ⟨-, hargs⟩ := isSound_named_iff.mp h
    rw [phrase, Phrase.toTy, toTys_phrases]
    exact Alike.all (named target) (fun front back _ _ h => .arg target front back h)
      (fun arg harg => ih arg harg (hargs arg harg)) []
  | container kind elems variadic ih =>
    obtain ⟨hadmits, helems⟩ := isSound_container_iff.mp h
    exact alike_toTy_container hadmits fun elem helem => ih elem helem (helems elem helem)
  | union members ih =>
    obtain ⟨hne, hmembers⟩ := isSound_union_iff.mp h
    have hall : Alike (.union members) (.union (members.map fun ty => ty.phrase.toTy)) :=
      Alike.all union (fun front back _ _ h => .member front back h)
        (fun member hm => ih member hm (hmembers member hm)) []
    cases members with
    | nil => exact absurd rfl hne
    | cons first rest =>
      rw [phrase, phrases, Phrase.union, Phrase.toTy, toTys_phrases]
      exact hall
  | literals values =>
    cases values with
    | nil => exact absurd rfl ((isSound_atom_iff rfl).mp h).1
    | cons first rest => exact .refl _
  | optional inner ih =>
    exact (Alike.optional inner).trans (.member [] [.absent] (ih (isSound_optional_iff.mp h)))

/-! ## 3. What alike types have in common -/

theorem Alike.phrase_eq {ty other : Ty} (h : Alike ty other) : ty.phrase = other.phrase := by
  induction h with
  | array elem variadic => rfl
  | optional inner => rfl
  | null => rfl
  | refl ty => rfl
  | symm _ ih => exact ih.symm
  | trans _ _ ih ih' => exact ih.trans ih'
  | arg target front back _ ih =>
    simp only [phrase, phrases_eq_map, List.map_append, List.map_cons, ih]
  | elem kind variadic front back _ ih =>
    simp only [phrase, phrases_eq_map, List.map_append, List.map_cons, ih]
  | member front back _ ih =>
    simp only [phrase, phrases_eq_map, List.map_append, List.map_cons, ih]
  | inner _ ih => rw [phrase, phrase, ih]

/-- What is inside is sound with one as it is with the other. -/
theorem forall_isSound_exchange {ty other : Ty} (h : ty.IsSound types ↔ other.IsSound types)
    (front back : List Ty) : (∀ one ∈ front ++ ty :: back, one.IsSound types) ↔
      ∀ one ∈ front ++ other :: back, one.IsSound types := by
  simp only [List.forall_mem_append, List.forall_mem_cons, h]

/-- **Alike types can both be written or neither.** -/
theorem Alike.isSound_iff {ty other : Ty} (h : Alike ty other) :
    ty.IsSound types ↔ other.IsSound types := by
  induction h with
  | array elem variadic =>
    rw [isSound_container_iff, Ty.variadic, isSound_container_iff]
    exact and_congr_left fun _ => iff_of_true rfl rfl
  | optional inner =>
    have habsent : IsSound types .absent := (isSound_atom_iff rfl).mpr trivial
    rw [isSound_optional_iff, isSound_union_iff, List.forall_mem_cons, List.forall_mem_singleton]
    exact ⟨fun h => ⟨List.cons_ne_nil _ _, h, habsent⟩, fun h => h.2.1⟩
  | null =>
    have hnull : FitsTable types (.literals [.null]) :=
      ⟨List.cons_ne_nil _ _, List.forall_mem_singleton.mpr trivial⟩
    exact iff_of_true ((isSound_atom_iff rfl).mpr hnull) ((isSound_atom_iff rfl).mpr trivial)
  | refl ty => exact Iff.rfl
  | symm _ ih => exact ih.symm
  | trans _ _ ih ih' => exact ih.trans ih'
  | arg target front back _ ih =>
    rw [isSound_named_iff, isSound_named_iff, forall_isSound_exchange ih, List.length_append,
      List.length_append, List.length_cons, List.length_cons]
  | elem kind variadic front back _ ih =>
    rw [isSound_container_iff, isSound_container_iff, forall_isSound_exchange ih,
      List.length_append, List.length_append, List.length_cons, List.length_cons]
  | member front back _ ih =>
    rw [isSound_union_iff, isSound_union_iff, forall_isSound_exchange ih]
    exact and_congr_left fun _ => iff_of_true (by simp) (by simp)
  | inner _ ih => rw [isSound_optional_iff, isSound_optional_iff, ih]

end Sound

end Ty

/-! ## 4. Reading a type -/

namespace Bindings

variable {types : TypeTable}

theorem finished_of_isSound {ty : Ty} (h : ty.IsSound types) :
    (typeText types ty).finished = .ok (typeText types ty).text := by
  rw [Draft.finished, (typeText_completes types ty).fault_iff.mpr h]

/-- **A type is read from its text**, up to the equations between types that are written alike.
    Where names and values are told from each other by their text, the types with the text of a type
    are those that are alike to it, and no others. -/
theorem same_text_iff_alike {ty other : Ty} (h : Legible types (ty.parts ++ other.parts))
    {text : String} (hty : (typeText types ty).finished = .ok text) :
    (typeText types other).finished = .ok text ↔ ty.Alike other := by
  obtain ⟨hfault, htext⟩ := fault_of_finished hty
  have hsound := (typeText_completes types ty).fault_iff.mp hfault
  constructor
  · intro hother
    obtain ⟨hfault', htext'⟩ := fault_of_finished hother
    have hsound' := (typeText_completes types other).fault_iff.mp hfault'
    have hphrase := phrase_eq_of_text_eq h hsound hsound' (htext.trans htext'.symm)
    have hother := Ty.alike_toTy hsound'
    rw [← hphrase] at hother
    exact (Ty.alike_toTy hsound).trans hother.symm
  · intro halike
    have hsound' := halike.isSound_iff.mp hsound
    have hsame : (typeText types other).text = text := by
      rw [← htext, ← String.toList_inj, toList_typeText hsound', toList_typeText hsound,
        halike.phrase_eq]
    rw [finished_of_isSound hsound', hsame]

theorem same_text_iff_alike_boxes :
    Legible boxTypes (optionalBox.parts ++ unionBox.parts) ∧
    (typeText boxTypes optionalBox).finished =
      .ok "((Box<[(U)[], null, true|\"a\"]>)|(undefined))" ∧
    optionalBox ≠ unionBox ∧ optionalBox.Alike unionBox :=
  ⟨legible_boxes, rfl, nofun, (same_text_iff_alike legible_boxes rfl).mp rfl⟩

end Bindings

end WireContract
