import Mathlib.Data.List.Forall2
import Mathlib.Logic.Relation
import WireContract.Proofs.Type.Substitution

/-!
# References to aliases inlined

A reference to an alias stands for the body of the alias with the arguments in place. Where
references are nested, in one another's arguments or in bodies, they can be inlined from the inside,
with the parameters of the outer definition still open, or from the outside. Since arguments are put
in all at once, nothing depends on the order.

* `Ty.Inlines`, `Ty.InlinesTo`, `Ty.IsInlined`: one reference inlined, any number of them, and none
  left;
* `Ty.Lifts`: relations that go from what types are made of to the types themselves; they go
  through substitution (`Lifts.substitute_bind`);
* `Ty.InlinesAtOnce`, `Ty.inlined`: any of the references in a type inlined at once, and all of
  them;
* `InlinesAtOnce.inlined`: after any of them all of them can still be inlined, so that the order
  does not matter (`InlinesTo.join`);
* `InlinesTo.substitute`: nor does it matter whether parameters are open;
* `substitution_composes`: what becomes of one substitution behind another.
-/

namespace WireContract

open Relation (ReflTransGen Join)

/-- The alias that a reference with so many arguments stands for. -/
def TypeTable.aliasFor (types : TypeTable) (target : DefId) (count : Nat) : Option AliasDef :=
  match types.get target with
  | .ok (.alias a) => if a.generics.length = count then some a else none
  | _ => none

theorem TypeTable.aliasFor_eq_some_iff {types : TypeTable} {target : DefId} {count : Nat}
    {a : AliasDef} : types.aliasFor target count = some a ↔
      types.get target = .ok (.alias a) ∧ a.generics.length = count := by
  unfold aliasFor
  split
  · rename_i other hother
    rw [hother]
    simp only [Option.ite_none_right_eq_some, Option.some.injEq, Except.ok.injEq,
      Definition.alias.injEq]
    exact ⟨fun h => ⟨h.2, h.2 ▸ h.1⟩, fun h => ⟨h.1 ▸ h.2, h.1⟩⟩
  · rename_i hnone
    exact iff_of_false nofun fun h => hnone a h.1

namespace Ty

/-! ## 1. Inlining -/

/-- One reference to an alias, anywhere in a type, gives way to the body of the alias with the
    arguments in place. It has to pass as many arguments as the alias has parameters. -/
inductive Inlines (types : TypeTable) : Ty → Ty → Prop where
  | reference (target : DefId) (args : List Ty) (a : AliasDef)
      (ha : types.get target = .ok (.alias a)) (hl : a.generics.length = args.length) :
      Inlines types (.named target args) (a.ty.substitute (bind a.generics args))
  | inside (ty : Ty) (before : List Ty) (one next : Ty) (behind : List Ty)
      (hty : ty.inside = before ++ one :: behind) (h : Inlines types one next) :
      Inlines types ty (ty.withInside (before ++ next :: behind))

/-- References inlined one after another, in any order. -/
abbrev InlinesTo (types : TypeTable) : Ty → Ty → Prop := ReflTransGen (Inlines types)

/-- No reference is left to be inlined. -/
def IsInlined (types : TypeTable) (ty : Ty) : Prop := ∀ next, ¬ Inlines types ty next

variable {types : TypeTable}

/-- What is no reference has nothing to be inlined, if all that it is made of has nothing. -/
theorem isInlined_of_inside {ty : Ty} (h : ∀ target args, ty ≠ .named target args)
    (hinside : ∀ one ∈ ty.inside, one.IsInlined types) : ty.IsInlined types := by
  intro next hnext
  cases hnext with
  | reference target args => exact h target args rfl
  | inside _ before one next behind hty hone =>
    exact hinside one (by rw [hty]; simp) next hone

theorem IsInlined.eq_of_inlinesTo {ty next : Ty} (h : ty.IsInlined types)
    (hto : InlinesTo types ty next) : next = ty := by
  rcases ReflTransGen.cases_head hto with heq | ⟨first, hfirst, -⟩
  · exact heq.symm
  · exact absurd hfirst (h first)

/-! ## 2. Relations that go through substitution -/

/-- Types are related if all that they are made of is. -/
def Lifts (rel : Ty → Ty → Prop) : Prop :=
  ∀ ty tys, List.Forall₂ rel ty.inside tys → rel ty (ty.withInside tys)

namespace Lifts

variable {rel : Ty → Ty → Prop} (hrel : Lifts rel)

include hrel

theorem refl (ty : Ty) : rel ty ty := by
  induction ty using Ty.insideInd with
  | generic name => exact hrel (.generic name) [] .nil
  | other ty _ ih =>
    have hself := hrel ty ty.inside (List.forall₂_same.mpr ih)
    rwa [withInside_inside] at hself

/-- Bindings that are related one by one put in related types. -/
theorem substitute_generic {b c : Bindings}
    (h : List.Forall₂ (fun e e' => e.1 = e'.1 ∧ rel e.2 e'.2) b c) (name : String) :
    rel ((Ty.generic name).substitute b) ((Ty.generic name).substitute c) := by
  induction h with
  | nil => exact hrel.refl _
  | @cons e e' rest rest' he _ ih =>
    obtain ⟨key, ty⟩ := e
    obtain ⟨key', ty'⟩ := e'
    obtain ⟨rfl, hty⟩ : key = key' ∧ rel ty ty' := he
    by_cases hkey : name = key
    · subst hkey
      rw [substitute_generic_of_some (Entries.get?_cons_self name ty rest),
        substitute_generic_of_some (Entries.get?_cons_self name ty' rest')]
      exact hty
    · rw [substitute, substitute] at ih ⊢
      rwa [Entries.get?_cons_of_ne hkey, Entries.get?_cons_of_ne hkey]

/-- **Related types put into one type make related types.** -/
theorem substitute {b c : Bindings}
    (h : List.Forall₂ (fun e e' => e.1 = e'.1 ∧ rel e.2 e'.2) b c) (ty : Ty) :
    rel (ty.substitute b) (ty.substitute c) := by
  induction ty using Ty.insideInd with
  | generic name => exact hrel.substitute_generic h name
  | other ty hne ih =>
    have hl : ∀ d : Bindings, (ty.inside.map (Ty.substitute d)).length = ty.inside.length :=
      fun _ => List.length_map _
    have hinside : List.Forall₂ rel (ty.inside.map (Ty.substitute b))
        (ty.inside.map (Ty.substitute c)) := by
      rw [List.forall₂_map_left_iff, List.forall₂_map_right_iff]
      exact List.forall₂_same.mpr ih
    rw [substitute_of_ne_generic hne, substitute_of_ne_generic hne,
      ← withInside_withInside (hl b) (hl c)]
    refine hrel _ _ ?_
    rwa [inside_withInside (hl b)]

theorem substitute_bind {args args' : List Ty} (h : List.Forall₂ rel args args')
    (generics : List String) (ty : Ty) :
    rel (ty.substitute (bind generics args)) (ty.substitute (bind generics args')) := by
  have hzip : List.Forall₂ (fun e e' : String × Ty => e.1 = e'.1 ∧ rel e.2 e'.2)
      (generics.zip args) (generics.zip args') := by
    induction h generalizing generics with
    | nil => cases generics <;> exact .nil
    | cons hfirst _ ih =>
      cases generics with
      | nil => exact .nil
      | cons name rest => exact .cons ⟨rfl, hfirst⟩ (ih rest)
  exact hrel.substitute (List.rel_reverse hzip) ty

end Lifts

/-- One part of a type gives way to what it is inlined to. -/
theorem inlines_part {ty one next : Ty} {before behind : List Ty}
    (hl : (before ++ one :: behind).length = ty.inside.length) (h : Inlines types one next) :
    Inlines types (ty.withInside (before ++ one :: behind))
      (ty.withInside (before ++ next :: behind)) := by
  have hl' : (before ++ next :: behind).length = ty.inside.length := by simpa using hl
  rw [← withInside_withInside hl hl']
  exact .inside _ before one next behind (inside_withInside hl) h

/-- The parts of a type are inlined one after another, those in front being done already. -/
theorem inlinesTo_parts {ty : Ty} {old new : List Ty}
    (h : List.Forall₂ (InlinesTo types) old new) (done : List Ty)
    (hl : (done ++ old).length = ty.inside.length) :
    InlinesTo types (ty.withInside (done ++ old)) (ty.withInside (done ++ new)) := by
  induction h generalizing done with
  | nil => exact .refl
  | @cons one next old new hone _ ih =>
    have hlength : ∀ part, (done ++ part :: old).length = ty.inside.length := fun part => by
      simpa using hl
    have hfirst : InlinesTo types (ty.withInside (done ++ one :: old))
        (ty.withInside (done ++ next :: old)) :=
      ReflTransGen.lift (fun part => ty.withInside (done ++ part :: old))
        (fun part _ hpart => inlines_part (hlength part) hpart) _ _ hone
    have hrest := ih (done ++ [next]) (by simpa using hl)
    rw [List.append_assoc, List.append_assoc] at hrest
    exact hfirst.trans hrest

/-- **What all that a type is made of is inlined to, the type is inlined to.** -/
theorem lifts_inlinesTo : Lifts (InlinesTo types) := by
  intro ty tys h
  have hparts := inlinesTo_parts h [] rfl
  rwa [List.nil_append, withInside_inside] at hparts

/-! ## 3. References inlined at once -/

/-- Some references in a type inlined at once, but none that a body brings in. -/
inductive InlinesAtOnce (types : TypeTable) : Ty → Ty → Prop where
  | reference (target : DefId) (args args' : List Ty) (a : AliasDef)
      (ha : types.aliasFor target args.length = some a)
      (h : List.Forall₂ (InlinesAtOnce types) args args') :
      InlinesAtOnce types (.named target args) (a.ty.substitute (bind a.generics args'))
  | inside (ty : Ty) (tys : List Ty) (h : List.Forall₂ (InlinesAtOnce types) ty.inside tys) :
      InlinesAtOnce types ty (ty.withInside tys)

/-- Induction on references that are inlined at once, with the hypothesis for all parts. -/
@[elab_as_elim]
theorem InlinesAtOnce.ind {motive : Ty → Ty → Prop}
    (reference : ∀ target args args' a, types.aliasFor target args.length = some a →
      List.Forall₂ motive args args' →
        motive (.named target args) (a.ty.substitute (bind a.generics args')))
    (inside : ∀ ty tys, List.Forall₂ motive ty.inside tys → motive ty (ty.withInside tys))
    {ty next : Ty} (h : InlinesAtOnce types ty next) : motive ty next :=
  @InlinesAtOnce.rec types (fun ty next _ => motive ty next)
    (fun tys others _ => List.Forall₂ motive tys others)
    (fun target args args' a ha _ ih => reference target args args' a ha ih)
    (fun ty tys _ ih => inside ty tys ih) .nil (fun _ _ head tail => .cons head tail) _ _ h

theorem lifts_inlinesAtOnce : Lifts (InlinesAtOnce types) := .inside

theorem Inlines.atOnce {ty next : Ty} (h : Inlines types ty next) :
    InlinesAtOnce types ty next := by
  have hsame : ∀ tys, List.Forall₂ (InlinesAtOnce types) tys tys := fun tys =>
    List.forall₂_same.mpr fun one _ => lifts_inlinesAtOnce.refl one
  induction h with
  | reference target args a ha hl =>
    exact .reference target args args a (TypeTable.aliasFor_eq_some_iff.mpr ⟨ha, hl⟩) (hsame args)
  | inside ty before one next behind hty _ ih =>
    refine .inside ty _ ?_
    rw [hty]
    exact List.rel_append (hsame before) (.cons ih (hsame behind))

theorem InlinesAtOnce.inlinesTo {ty next : Ty} (h : InlinesAtOnce types ty next) :
    InlinesTo types ty next := by
  refine h.ind (fun target args args' a ha ih => ?reference) lifts_inlinesTo
  obtain ⟨ha, hl⟩ := TypeTable.aliasFor_eq_some_iff.mp ha
  have hargs : InlinesTo types (.named target args) (.named target args') :=
    lifts_inlinesTo _ _ ih
  exact hargs.tail (.reference target args' a ha (hl.trans ih.length_eq))

mutual

/-- All references to aliases in a type inlined at once; those that the bodies bring in are left. -/
def inlined (types : TypeTable) : Ty → Ty
  | .named target args =>
    match types.aliasFor target args.length with
    | some a => a.ty.substitute (bind a.generics (inlinedAll types args))
    | none => .named target (inlinedAll types args)
  | .container kind elems variadic => .container kind (inlinedAll types elems) variadic
  | .union members => .union (inlinedAll types members)
  | .optional inner => .optional (inlined types inner)
  | ty => ty

def inlinedAll (types : TypeTable) : List Ty → List Ty
  | [] => []
  | ty :: rest => inlined types ty :: inlinedAll types rest

end

theorem inlinedAll_eq_map (tys : List Ty) : inlinedAll types tys = tys.map (inlined types) := by
  induction tys with
  | nil => rfl
  | cons ty rest ih => rw [inlinedAll, ih, List.map_cons]

theorem inlined_of_alias {target : DefId} {args : List Ty} {a : AliasDef}
    (h : types.aliasFor target args.length = some a) :
    inlined types (.named target args) =
      a.ty.substitute (bind a.generics (args.map (inlined types))) := by
  rw [inlined, h, inlinedAll_eq_map]

/-- Whatever is no reference to an alias is kept, and what it is made of is inlined. -/
theorem inlined_of_no_alias {ty : Ty}
    (h : ∀ target args, ty = .named target args → types.aliasFor target args.length = none) :
    inlined types ty = ty.withInside (ty.inside.map (inlined types)) := by
  cases ty with
  | named target args => rw [inlined, h target args rfl, inlinedAll_eq_map]; rfl
  | container | union => rw [inlined, inlinedAll_eq_map]; rfl
  | optional inner => rw [inlined]; rfl
  | _ => rfl

/-- **Whatever is inlined at once, all references that were there can be inlined still.** -/
theorem InlinesAtOnce.inlined {ty next : Ty} (h : InlinesAtOnce types ty next) :
    InlinesAtOnce types next (ty.inlined types) := by
  have hall : ∀ {tys others : List Ty},
      List.Forall₂ (fun one other => InlinesAtOnce types other (one.inlined types)) tys others →
        List.Forall₂ (InlinesAtOnce types) others (tys.map (Ty.inlined types)) := fun h =>
    List.forall₂_map_right_iff.mpr h.flip
  refine h.ind (fun target args args' a ha ih => ?reference) (fun ty tys ih => ?inside)
  case reference =>
    rw [inlined_of_alias ha]
    exact lifts_inlinesAtOnce.substitute_bind (hall ih) a.generics a.ty
  case inside =>
    have hl : tys.length = ty.inside.length := ih.length_eq.symm
    by_cases halias : ∃ target args a, ty = .named target args ∧
        types.aliasFor target args.length = some a
    · obtain ⟨target, args, a, rfl, ha⟩ := halias
      rw [inlined_of_alias ha]
      exact .reference target tys _ a (hl ▸ ha) (hall ih)
    · rw [inlined_of_no_alias fun target args hty => Option.eq_none_iff_forall_ne_some.mpr
        fun a ha => halias ⟨target, args, a, hty, ha⟩]
      rw [← withInside_withInside hl (List.length_map _)]
      refine .inside _ _ ?_
      rw [inside_withInside hl]
      exact hall ih

/-! ## 4. The order does not matter -/

/-- **In whatever order references are inlined, one can go on to the same type.** -/
theorem InlinesTo.join {ty next other : Ty} (h : InlinesTo types ty next)
    (h' : InlinesTo types ty other) : Join (InlinesTo types) next other := by
  have hatOnce : ∀ {ty next : Ty}, InlinesTo types ty next →
      ReflTransGen (InlinesAtOnce types) ty next := fun h =>
    ReflTransGen.mono (fun _ _ hstep => hstep.atOnce) _ _ h
  have hback : ∀ {ty next : Ty}, ReflTransGen (InlinesAtOnce types) ty next →
      InlinesTo types ty next := fun h =>
    Relation.reflTransGen_closed (fun _ _ hstep => hstep.inlinesTo) _ _ h
  obtain ⟨common, hnext, hother⟩ := Relation.church_rosser
    (fun ty _ _ hstep hstep' => ⟨ty.inlined types, .single hstep.inlined, .single hstep'.inlined⟩)
    (hatOnce h) (hatOnce h')
  exact ⟨common, hback hnext, hback hother⟩

/-- So references are inlined completely in one way only. -/
theorem eq_of_join {ty other : Ty} (h : Join (InlinesTo types) ty other)
    (hty : ty.IsInlined types) (hother : other.IsInlined types) : ty = other := by
  obtain ⟨common, hto, hto'⟩ := h
  exact (hty.eq_of_inlinesTo hto).symm.trans (hother.eq_of_inlinesTo hto')

/-- A reference is inlined alike with parameters open and with types in their place. -/
theorem Inlines.substitute (htypes : types.OwnsParameters) {ty next : Ty}
    (h : Inlines types ty next) (b : Bindings) :
    Inlines types (ty.substitute b) (next.substitute b) := by
  induction h with
  | reference target args a ha hl =>
    have hcovers : a.ty.parameters ⊆ a.generics := htypes target a ha
    rw [substitute_bind_substitute hl hcovers, substitute_named]
    exact .reference target _ a ha (by rw [List.length_map, hl])
  | inside ty before one next behind hty _ ih =>
    have hne : ∀ name, ty ≠ .generic name := by
      rintro name rfl
      cases before <;> cases hty
    have hl : (before ++ next :: behind).length = ty.inside.length := by simp [hty]
    rw [substitute_of_ne_generic hne, substitute_of_ne_generic (withInside_ne_generic hne _),
      inside_withInside hl, withInside_withInside hl (by simpa using hl), hty, List.map_append,
      List.map_append]
    exact inlines_part (by simp [hty]) ih

theorem InlinesTo.substitute (htypes : types.OwnsParameters) {ty next : Ty}
    (h : InlinesTo types ty next) (b : Bindings) :
    InlinesTo types (ty.substitute b) (next.substitute b) :=
  ReflTransGen.lift (Ty.substitute b) (fun _ _ hstep => hstep.substitute htypes b) _ _ h

/-- **Substitution composes.** To put arguments in place of all parameters that a type names, and
    then other types into what comes of it, is to put in the arguments with the other types in each
    of them.

    So nested references can be inlined from the inside, in the type and in the arguments before
    anything is put in, or from the outside with everything in its place: in both ways one can go on
    to the same type, and if no reference is left, it is the same already. And no parameter is
    captured: each one gives way to its argument as it is, whatever parameters that names, and the
    result names what the arguments name, occurrence by occurrence. -/
theorem substitution_composes {generics : List String} (hdistinct : generics.Nodup)
    {args : List Ty} (hl : generics.length = args.length) {ty : Ty}
    (hcovers : ty.parameters ⊆ generics) (b : Bindings) :
    (ty.substitute (bind generics args)).substitute b =
        ty.substitute (bind generics (args.map (substitute b))) ∧
      (∀ types : TypeTable, types.OwnsParameters → ∀ ty' args' inner outer,
        InlinesTo types ty ty' → List.Forall₂ (InlinesTo types) args args' →
        InlinesTo types ((ty'.substitute (bind generics args')).substitute b) inner →
        InlinesTo types (ty.substitute (bind generics (args.map (substitute b)))) outer →
          Join (InlinesTo types) inner outer ∧
            (inner.IsInlined types → outer.IsInlined types → inner = outer)) ∧
      (∀ name arg, (name, arg) ∈ generics.zip args →
        (Ty.generic name).substitute (bind generics args) = arg) ∧
      (ty.substitute (bind generics args)).parameters =
        ty.parameters.flatMap fun name =>
          ((Ty.generic name).substitute (bind generics args)).parameters := by
  have hcomposes := substitute_bind_substitute hl hcovers b
  refine ⟨hcomposes, ?_, fun _ _ => substitute_bind_of_mem_zip hdistinct hl,
    parameters_substitute _ ty⟩
  intro types htypes ty' args' inner outer hty hargs hinner houter
  -- Both ways start from the type with everything in its place.
  have hput : InlinesTo types (ty.substitute (bind generics args))
      (ty'.substitute (bind generics args')) :=
    (InlinesTo.substitute htypes hty _).trans (lifts_inlinesTo.substitute_bind hargs generics ty')
  have hinside := (InlinesTo.substitute htypes hput b).trans hinner
  rw [hcomposes] at hinside
  have hjoin := InlinesTo.join hinside houter
  exact ⟨hjoin, eq_of_join hjoin⟩

/-- Pairs, and pairs with their parts swapped. -/
def pairs : TypeTable where
  slots := [
    .defined (.alias
      { name := "Pair"
        generics := ["A", "B"]
        ty := .tuple [.generic "A", .generic "B"] }),
    .defined (.alias
      { name := "Swap"
        generics := ["A", "B"]
        ty := .named 0 [.generic "B", .generic "A"] })]

theorem pairs_ownsParameters : pairs.OwnsParameters := by
  intro id a ha
  match id with
  | 0 =>
    cases ha
    decide
  | 1 =>
    cases ha
    decide
  | _ + 2 => cases ha

/-- A swapped pair, as it is written where the parameters have the same names. -/
def swapped : Ty := .named 1 [.generic "A", .generic "B"]

/-- Arguments that name the parameters they are put in place of, crosswise and one of them twice. -/
def crossed : List Ty := [.generic "B", .named 0 [.generic "A", .generic "A"]]

/-- Numbers for the first parameter and strings for the second. -/
def numberString : Bindings := bind ["A", "B"] [.number, .string]

/-- The references in the swapped pair and in the arguments are inlined first, and then everything
    is put in; or everything is put in and inlined then: the same pair comes of it. -/
theorem substitution_composes_swapped :
    (swapped.substitute (bind ["A", "B"] crossed)).substitute numberString =
        .named 1 [.string, .named 0 [.number, .number]] ∧
      InlinesTo pairs swapped (.tuple [.generic "B", .generic "A"]) ∧
      InlinesTo pairs (.named 1 [.string, .named 0 [.number, .number]])
        (.tuple [.tuple [.number, .number], .string]) ∧
      ((Ty.tuple [.generic "B", .generic "A"]).substitute
        (bind ["A", "B"] [.generic "B", .tuple [.generic "A", .generic "A"]])).substitute
          numberString = .tuple [.tuple [.number, .number], .string] ∧
      (swapped.substitute (bind ["A", "B"] crossed)).parameters = ["B", "A", "A"] := by
  have hdistinct : ["A", "B"].Nodup := by decide
  have hl : ["A", "B"].length = crossed.length := rfl
  have hcovers : swapped.parameters ⊆ ["A", "B"] := by decide
  have hinside : InlinesTo pairs swapped (.tuple [.generic "B", .generic "A"]) :=
    .head (.reference 1 _ _ rfl rfl) (.head (.reference 0 _ _ rfl rfl) .refl)
  have hargs : List.Forall₂ (InlinesTo pairs) crossed
      [.generic "B", .tuple [.generic "A", .generic "A"]] :=
    .cons .refl (.cons (.head (.reference 0 _ _ rfl rfl) .refl) .nil)
  have houtside : InlinesTo pairs (.named 1 [.string, .named 0 [.number, .number]])
      (.tuple [.tuple [.number, .number], .string]) := by
    refine .head (.reference 1 _ _ rfl rfl) (.head (.reference 0 _ _ rfl rfl) ?_)
    exact .head (.inside _ [] _ _ [.string] rfl (.reference 0 _ _ rfl rfl)) .refl
  have hatom : ∀ kind, (Ty.primitive kind).IsInlined pairs := fun kind =>
    isInlined_of_inside nofun nofun
  have htuple : ∀ one other, one.IsInlined pairs → other.IsInlined pairs →
      (Ty.tuple [one, other]).IsInlined pairs := fun one other hone hother =>
    isInlined_of_inside nofun
      (List.forall_mem_cons.mpr ⟨hone, List.forall_mem_singleton.mpr hother⟩)
  have hinlined := htuple _ _ (htuple _ _ (hatom .number) (hatom .number)) (hatom .string)
  obtain ⟨hcomposes, horder, -, hparameters⟩ :=
    substitution_composes hdistinct hl hcovers numberString
  obtain ⟨-, hsame⟩ := horder pairs pairs_ownsParameters _ _ _ _ hinside hargs .refl houtside
  exact ⟨hcomposes, hinside, houtside, hsame hinlined hinlined, hparameters⟩

end Ty

end WireContract
