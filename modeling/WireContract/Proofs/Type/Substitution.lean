import Mathlib.Data.List.Nodup
import WireContract.Proofs.Type.Expressions

/-!
# Arguments in place of parameters

The arguments of a reference are put in place of the parameters of a definition all at once: what
comes in with an argument is not looked at again, even if it names the same parameters. Therefore it
makes no difference whether arguments are put into a body before other types are put in place of the
parameters of the arguments, or behind.

* `Ty.inside`, `Ty.withInside`: what an expression is directly made of, and the expression with
  others in their place;
* `Ty.parameters`: the parameters that an expression names;
* `substitute_substitute`, `substitute_bind_substitute`: two substitutions in a row are one;
* `parameters_substitute`: an occurrence of a parameter gives way to the occurrences in what is put
  in its place;
* `TypeTable.OwnsParameters`: tables in which every alias names its own parameters only.
-/

namespace WireContract

namespace Ty

/-! ## 1. What an expression is made of -/

/-- The expressions that an expression is directly made of. -/
def inside : Ty → List Ty
  | .named _ args => args
  | .container _ elems _ => elems
  | .union members => members
  | .optional inner => [inner]
  | _ => []

/-- The expression with others in place of those that it is directly made of. -/
def withInside : Ty → List Ty → Ty
  | .named target _, tys => .named target tys
  | .container kind _ variadic, tys => .container kind tys variadic
  | .union _, tys => .union tys
  | .optional _, [inner] => .optional inner
  | ty, _ => ty

@[simp] theorem withInside_inside (ty : Ty) : ty.withInside ty.inside = ty := by
  cases ty <;> rfl

/-- The others are what it is made of then, if they are as many. -/
theorem inside_withInside {ty : Ty} {tys : List Ty} (h : tys.length = ty.inside.length) :
    (ty.withInside tys).inside = tys := by
  cases ty with
  | optional inner =>
    obtain ⟨one, rfl⟩ := List.length_eq_one_iff.mp h
    rfl
  | named | container | union => rfl
  | _ => exact (List.length_eq_zero_iff.mp h).symm

/-- Of two replacements in a row the second one counts. -/
theorem withInside_withInside {ty : Ty} {tys others : List Ty}
    (h : tys.length = ty.inside.length) (ho : others.length = ty.inside.length) :
    (ty.withInside tys).withInside others = ty.withInside others := by
  cases ty with
  | optional inner =>
    obtain ⟨one, rfl⟩ := List.length_eq_one_iff.mp h
    obtain ⟨other, rfl⟩ := List.length_eq_one_iff.mp ho
    rfl
  | _ => rfl

theorem withInside_ne_generic {ty : Ty} (h : ∀ name, ty ≠ .generic name) (tys : List Ty)
    (name : String) : ty.withInside tys ≠ .generic name := by
  cases ty with
  | generic other => exact absurd rfl (h other)
  | optional inner =>
    unfold withInside
    split <;> exact nofun
  | _ => exact nofun

theorem parts_eq_inside (ty : Ty) : ty.parts = ty :: ty.inside.flatMap parts := by
  cases ty with
  | named target args => exact parts_named target args
  | container kind elems variadic => exact parts_container kind elems variadic
  | union members => exact parts_union members
  | optional inner => rw [parts, inside, List.flatMap_singleton]
  | _ => rfl

/-- Induction on an expression: a parameter, or something with the hypothesis for all that it is
    directly made of. -/
@[elab_as_elim]
theorem insideInd {motive : Ty → Prop} (generic : ∀ name, motive (.generic name))
    (other : ∀ ty, (∀ name, ty ≠ .generic name) → (∀ one ∈ ty.inside, motive one) → motive ty)
    (ty : Ty) : motive ty := by
  induction ty using Ty.ind with
  | generic name => exact generic name
  | named target args ih => exact other _ nofun ih
  | container kind elems variadic ih => exact other _ nofun ih
  | union members ih => exact other _ nofun ih
  | optional inner ih => exact other _ nofun (List.forall_mem_singleton.mpr ih)
  | _ => exact other _ nofun fun one hone => absurd hone List.not_mem_nil

/-- Whatever is no parameter is kept, and what it is made of is changed. -/
theorem substitute_of_ne_generic {ty : Ty} (h : ∀ name, ty ≠ .generic name) (b : Bindings) :
    ty.substitute b = ty.withInside (ty.inside.map (substitute b)) := by
  cases ty with
  | generic name => exact absurd rfl (h name)
  | named target args => exact substitute_named b target args
  | container kind elems variadic => exact substitute_container b kind elems variadic
  | union members => exact substitute_union b members
  | _ => rfl

/-! ## 2. The parameters of an expression -/

/-- The parameter that an expression is, if it is one. -/
def parameter? : Ty → Option String
  | .generic name => some name
  | _ => none

/-- The type parameters that an expression names, once for every occurrence, in the order of
    writing. -/
def parameters (ty : Ty) : List String := ty.parts.filterMap parameter?

theorem mem_parameters_iff {ty : Ty} {name : String} :
    name ∈ ty.parameters ↔ Ty.generic name ∈ ty.parts := by
  rw [parameters, List.mem_filterMap]
  constructor
  · rintro ⟨part, hpart, h⟩
    cases part with
    | generic other =>
      obtain rfl : other = name := Option.some.inj h
      exact hpart
    | _ => cases h
  · exact fun h => ⟨_, h, rfl⟩

@[simp] theorem parameters_generic (name : String) : (Ty.generic name).parameters = [name] := rfl

theorem parameters_of_ne_generic {ty : Ty} (h : ∀ name, ty ≠ .generic name) :
    ty.parameters = ty.inside.flatMap parameters := by
  have hnone : ty.parameter? = none := by
    cases ty with
    | generic name => exact absurd rfl (h name)
    | _ => rfl
  rw [parameters, parts_eq_inside, List.filterMap_cons_none hnone, List.filterMap_flatMap]
  rfl

theorem parameters_subset_of_mem_inside {ty one : Ty} (h : one ∈ ty.inside) :
    one.parameters ⊆ ty.parameters := by
  have hne : ∀ name, ty ≠ .generic name := by
    rintro name rfl
    cases h
  rw [parameters_of_ne_generic hne]
  exact fun name hname => List.mem_flatMap_of_mem h hname

/-! ## 3. Bindings -/

theorem get?_map {α : Type} (b : Bindings) (f : Ty → α) (name : String) :
    Entries.get? (b.map fun e => (e.1, f e.2)) name = (b.get? name).map f := by
  induction b with
  | nil => rfl
  | cons e rest ih =>
    obtain ⟨k, ty⟩ := e
    by_cases hk : k = name
    · simp [Entries.get?, hk]
    · simp [Entries.get?, hk, ih]

/-- Arguments that are changed all in one way are bound to the same parameters. -/
theorem bind_map_get? (generics : List String) (args : List Ty) (f : Ty → Ty) (name : String) :
    (bind generics (args.map f)).get? name = ((bind generics args).get? name).map f := by
  have hbind : bind generics (args.map f) =
      (bind generics args).map fun e => (e.1, f e.2) := by
    rw [bind, bind, List.zip_map_right, List.map_reverse]
    rfl
  rw [hbind, get?_map]

theorem substitute_generic_of_some {b : Bindings} {name : String} {ty : Ty}
    (h : b.get? name = some ty) : (Ty.generic name).substitute b = ty := by
  rw [substitute, h, Option.getD_some]

theorem substitute_generic_of_none {b : Bindings} {name : String} (h : b.get? name = none) :
    (Ty.generic name).substitute b = .generic name := by
  rw [substitute, h, Option.getD_none]

/-- Every parameter of a definition is bound by a reference with as many arguments. -/
theorem exists_bind_get? {generics : List String} {args : List Ty}
    (hl : generics.length = args.length) {name : String} (hname : name ∈ generics) :
    ∃ arg, (bind generics args).get? name = some arg := by
  refine Option.ne_none_iff_exists'.mp fun hnone => ?_
  rw [Entries.get?_eq_none_iff, bind, Entries.keys, List.map_reverse, List.mem_reverse,
    List.map_fst_zip (Nat.le_of_eq hl)] at hnone
  exact hnone hname

/-- Among parameters with names of their own each one is bound to the argument at its place,
    whatever parameters the argument names. -/
theorem substitute_bind_of_mem_zip {generics : List String} (hdistinct : generics.Nodup)
    {args : List Ty} (hl : generics.length = args.length) {name : String} {arg : Ty}
    (hmem : (name, arg) ∈ generics.zip args) :
    (Ty.generic name).substitute (bind generics args) = arg := by
  have hkeys : (bind generics args).keys.Nodup := by
    rwa [bind, Entries.keys, List.map_reverse, List.map_fst_zip (Nat.le_of_eq hl),
      List.nodup_reverse]
  exact substitute_generic_of_some (Entries.get?_of_mem hkeys (List.mem_reverse.mpr hmem))

/-! ## 4. Substitutions in a row -/

/-- Nothing is changed by a substitution without bindings. -/
theorem substitute_nil (ty : Ty) : ty.substitute [] = ty := by
  induction ty using Ty.insideInd with
  | generic name => rfl
  | other ty hne ih =>
    rw [substitute_of_ne_generic hne, List.map_congr_left ih, List.map_id', withInside_inside]

/-- **Two substitutions in a row are one**, if they are one for every parameter that is named. -/
theorem substitute_substitute {b c d : Bindings} {ty : Ty}
    (h : ∀ name ∈ ty.parameters,
      ((Ty.generic name).substitute b).substitute c = (Ty.generic name).substitute d) :
    (ty.substitute b).substitute c = ty.substitute d := by
  induction ty using Ty.insideInd with
  | generic name => exact h name (List.mem_singleton_self name)
  | other ty hne ih =>
    have hinside : ∀ one ∈ ty.inside, (one.substitute b).substitute c = one.substitute d :=
      fun one hone => ih one hone fun name hname =>
        h name (parameters_subset_of_mem_inside hone hname)
    have hl : (ty.inside.map (substitute b)).length = ty.inside.length := List.length_map _
    rw [substitute_of_ne_generic hne, substitute_of_ne_generic (withInside_ne_generic hne _),
      inside_withInside hl, List.map_map, withInside_withInside hl (List.length_map _),
      substitute_of_ne_generic hne]
    exact congrArg _ (List.map_congr_left hinside)

/-- **Arguments may be put in before other types are put into them, or behind.** Only parameters
    that are no parameters of the definition would be missed by the arguments. -/
theorem substitute_bind_substitute {generics : List String} {args : List Ty}
    (hl : generics.length = args.length) {ty : Ty} (hcovers : ty.parameters ⊆ generics)
    (b : Bindings) :
    (ty.substitute (bind generics args)).substitute b =
      ty.substitute (bind generics (args.map (substitute b))) := by
  refine substitute_substitute fun name hname => ?_
  obtain ⟨arg, harg⟩ := exists_bind_get? hl (hcovers hname)
  have hput : (bind generics (args.map (substitute b))).get? name = some (arg.substitute b) := by
    rw [bind_map_get?, harg, Option.map_some]
  rw [substitute_generic_of_some harg, substitute_generic_of_some hput]

/-- **No parameter is captured**: every occurrence of a parameter gives way to the occurrences in
    what is put in its place, in the same order, and none of those is replaced in turn. -/
theorem parameters_substitute (b : Bindings) (ty : Ty) :
    (ty.substitute b).parameters =
      ty.parameters.flatMap fun name => ((Ty.generic name).substitute b).parameters := by
  induction ty using Ty.insideInd with
  | generic name => rw [parameters_generic, List.flatMap_singleton]
  | other ty hne ih =>
    rw [substitute_of_ne_generic hne, parameters_of_ne_generic (withInside_ne_generic hne _),
      inside_withInside (List.length_map _), parameters_of_ne_generic hne, List.flatMap_map,
      List.flatMap_assoc]
    exact List.flatMap_congr ih

end Ty

/-- Whether the body of every alias names parameters of the alias only. -/
def TypeTable.OwnsParameters (types : TypeTable) : Prop :=
  ∀ id a, types.get id = .ok (.alias a) → a.ty.parameters ⊆ a.generics

end WireContract
