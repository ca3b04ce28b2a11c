import WireContract.Proofs.Type.Expressions

/-!
# Sound type expressions

An expression is sound over a table if every part of it can be written and every reference in it
leads to a definition with as many parameters as it passes arguments. This is what the generated
text of an expression is refused for, and all that a comparison of a value with the expression can
trip over besides the value.

* `ContainerForm`: the containers that their kinds allow;
* `Ty.IsSound`, and what it says for every kind of expression;
* `isSound_substitute`: sound arguments in place of parameters keep an expression sound;
* `mentions_substitute`: and bring in no references but their own.
-/

namespace WireContract

/-- Whether a value has no parts, so that it can be written as a literal. -/
def Json.IsScalar : Json → Prop
  | .array _ => False
  | .object _ => False
  | _ => True

/-- Whether a container of a kind may have so many elements. -/
def ContainerKind.Admits : ContainerKind → Nat → Bool → Prop
  | .array, n, _ => n = 1
  | .tuple, n, true => n = 1
  | .tuple, _, false => True
  | .record, n, variadic => n = 2 ∧ variadic = false

/-- The forms that containers have whose kinds allow them. -/
inductive ContainerForm : ContainerKind → List Ty → Bool → Prop where
  | array (elem : Ty) (variadic : Bool) : ContainerForm .array [elem] variadic
  | variadic (elem : Ty) : ContainerForm .tuple [elem] true
  | tuple (elems : List Ty) : ContainerForm .tuple elems false
  | record (key value : Ty) : ContainerForm .record [key, value] false

theorem ContainerKind.Admits.form {kind : ContainerKind} {elems : List Ty} {variadic : Bool}
    (h : kind.Admits elems.length variadic) : ContainerForm kind elems variadic := by
  cases kind with
  | array =>
    obtain ⟨elem, rfl⟩ := List.length_eq_one_iff.mp h
    exact .array elem variadic
  | tuple =>
    cases variadic with
    | true =>
      obtain ⟨elem, rfl⟩ := List.length_eq_one_iff.mp h
      exact .variadic elem
    | false => exact .tuple elems
  | record =>
    obtain ⟨hlength, rfl⟩ := h
    match elems, hlength with
    | [key, value], _ => exact .record key value

namespace Ty

/-- What soundness asks of one part, whatever is inside it. -/
def FitsTable (types : TypeTable) : Ty → Prop
  | .named target args =>
    ∃ body, types.get target = .ok body ∧ args.length = body.generics.length
  | .container kind elems variadic => kind.Admits elems.length variadic
  | .union members => members ≠ []
  | .literals values => values ≠ [] ∧ ∀ v ∈ values, v.IsScalar
  | _ => True

/-- Whether every part of an expression can be written and every reference leads to a definition
    with as many parameters as it passes arguments. -/
def IsSound (types : TypeTable) (ty : Ty) : Prop :=
  ∀ part ∈ ty.parts, part.FitsTable types

section Kinds

variable {types : TypeTable}

theorem isSound_named_iff {target : DefId} {args : List Ty} :
    IsSound types (.named target args) ↔
      (∃ body, types.get target = .ok body ∧ args.length = body.generics.length) ∧
        ∀ arg ∈ args, IsSound types arg :=
  forall_parts_named_iff

theorem isSound_container_iff {kind : ContainerKind} {elems : List Ty} {variadic : Bool} :
    IsSound types (.container kind elems variadic) ↔
      kind.Admits elems.length variadic ∧ ∀ elem ∈ elems, IsSound types elem :=
  forall_parts_container_iff

theorem isSound_union_iff {members : List Ty} :
    IsSound types (.union members) ↔ members ≠ [] ∧ ∀ member ∈ members, IsSound types member :=
  forall_parts_union_iff

theorem isSound_optional_iff {inner : Ty} :
    IsSound types (.optional inner) ↔ IsSound types inner :=
  forall_parts_optional_iff.trans (and_iff_right trivial)

/-- An expression with nothing inside it. -/
theorem isSound_atom_iff {ty : Ty} (h : ty.parts = [ty]) :
    IsSound types ty ↔ ty.FitsTable types :=
  forall_parts_atom_iff h

/-- What a sound expression mentions is there. -/
theorem IsSound.get_of_mem_mentions {ty : Ty} (h : IsSound types ty) {id : DefId}
    (hid : id ∈ ty.mentions) : ∃ body, types.get id = .ok body := by
  obtain ⟨args, hpart⟩ := mem_mentions_iff.mp hid
  obtain ⟨body, hbody, -⟩ := h _ hpart
  exact ⟨body, hbody⟩

end Kinds

/-! ## Substitution -/

section Substitution

variable {types : TypeTable} {b : Bindings}

/-- Every type that a binding puts in is one of the arguments. -/
theorem bind_get?_mem {generics : List String} {args : List Ty} {name : String} {ty : Ty}
    (h : (bind generics args).get? name = some ty) : ty ∈ args := by
  have hmem := Entries.mem_of_get? h
  rw [bind, List.mem_reverse] at hmem
  exact (List.of_mem_zip hmem).2

/-- **Sound arguments in place of parameters keep an expression sound.** -/
theorem isSound_substitute (hb : ∀ name ty, b.get? name = some ty → IsSound types ty) {ty : Ty}
    (h : IsSound types ty) : IsSound types (ty.substitute b) := by
  induction ty using Ty.ind with
  | generic name =>
    rw [substitute]
    cases hname : b.get? name with
    | none => exact h
    | some bound => exact hb name bound hname
  | named target args ih =>
    obtain ⟨⟨body, hbody, hlen⟩, hargs⟩ := isSound_named_iff.mp h
    rw [substitute_named, isSound_named_iff]
    refine ⟨⟨body, hbody, by rw [List.length_map, hlen]⟩, ?_⟩
    exact List.forall_mem_map.mpr fun arg harg => ih arg harg (hargs arg harg)
  | container kind elems variadic ih =>
    obtain ⟨hadmits, helems⟩ := isSound_container_iff.mp h
    rw [substitute_container, isSound_container_iff, List.length_map]
    refine ⟨hadmits, ?_⟩
    exact List.forall_mem_map.mpr fun elem helem => ih elem helem (helems elem helem)
  | union members ih =>
    obtain ⟨hne, hmembers⟩ := isSound_union_iff.mp h
    rw [substitute_union, isSound_union_iff]
    refine ⟨fun hnil => hne (List.map_eq_nil_iff.mp hnil), ?_⟩
    exact List.forall_mem_map.mpr fun member hm => ih member hm (hmembers member hm)
  | optional inner ih =>
    rw [substitute, isSound_optional_iff]
    exact ih (isSound_optional_iff.mp h)
  | _ => exact h

theorem flatMap_mentions_substitute {tys : List Ty} {ids : DefId → Prop}
    (ih : ∀ ty ∈ tys, (∀ id ∈ ty.mentions, ids id) → ∀ id ∈ (ty.substitute b).mentions, ids id)
    (h : ∀ id ∈ tys.flatMap mentions, ids id) :
    ∀ id ∈ (tys.map (substitute b)).flatMap mentions, ids id := by
  intro id hid
  rw [List.flatMap_map] at hid
  obtain ⟨ty, hty, hid⟩ := List.mem_flatMap.mp hid
  exact ih ty hty (fun other ho => h other (List.mem_flatMap_of_mem hty ho)) id hid

/-- **Arguments bring in no references but their own.** -/
theorem mentions_substitute {ids : DefId → Prop}
    (hb : ∀ name ty, b.get? name = some ty → ∀ id ∈ ty.mentions, ids id) {ty : Ty}
    (h : ∀ id ∈ ty.mentions, ids id) : ∀ id ∈ (ty.substitute b).mentions, ids id := by
  induction ty using Ty.ind with
  | generic name =>
    rw [substitute]
    cases hname : b.get? name with
    | none => exact h
    | some bound => exact hb name bound hname
  | named target args ih =>
    rw [mentions_named, List.forall_mem_cons] at h
    rw [substitute_named, mentions_named, List.forall_mem_cons]
    exact ⟨h.1, flatMap_mentions_substitute ih h.2⟩
  | container kind elems variadic ih =>
    rw [mentions_container] at h
    rw [substitute_container, mentions_container]
    exact flatMap_mentions_substitute ih h
  | union members ih =>
    rw [mentions_union] at h
    rw [substitute_union, mentions_union]
    exact flatMap_mentions_substitute ih h
  | optional inner ih =>
    rw [mentions_optional] at h
    rw [substitute, mentions_optional]
    exact ih h
  | _ => exact h

end Substitution

end Ty

/-! ## Definitions -/

/-- The constants that the declaration of a definition is written with. -/
def Definition.constants : Definition → List Json
  | .enumeration e => e.members.map (·.value)
  | _ => []

/-- Whether the body of a definition can be written: its expressions are sound, and its constants
    are values without parts. -/
structure Definition.IsSound (types : TypeTable) (body : Definition) : Prop where
  expressions : ∀ ty ∈ body.expressions, ty.IsSound types
  constants : ∀ v ∈ body.constants, v.IsScalar

namespace Definition

variable {types : TypeTable}

theorem IsSound.get_of_mem_mentions {body : Definition} (h : body.IsSound types) {id : DefId}
    (hid : id ∈ body.mentions) : ∃ other, types.get id = .ok other := by
  obtain ⟨ty, hty, hid⟩ := List.mem_flatMap.mp hid
  exact (h.expressions ty hty).get_of_mem_mentions hid

theorem isSound_struct_iff {s : StructDef} :
    (struct s).IsSound types ↔ ∀ f ∈ s.fields, f.shape.1.IsSound types := by
  constructor
  · exact fun h f hf => h.expressions _ (List.mem_map_of_mem hf)
  · exact fun h => ⟨List.forall_mem_map.mpr h, fun _ hv => absurd hv List.not_mem_nil⟩

theorem isSound_enumeration_iff {e : EnumDef} :
    (enumeration e).IsSound types ↔ ∀ m ∈ e.members, m.value.IsScalar := by
  constructor
  · exact fun h m hm => h.constants _ (List.mem_map_of_mem hm)
  · exact fun h => ⟨fun _ hty => absurd hty List.not_mem_nil, List.forall_mem_map.mpr h⟩

theorem isSound_alias_iff {a : AliasDef} :
    (Definition.alias a).IsSound types ↔ a.ty.IsSound types := by
  constructor
  · exact fun h => h.expressions _ List.mem_cons_self
  · intro h
    exact ⟨List.forall_mem_singleton.mpr h, fun _ hv => absurd hv List.not_mem_nil⟩

end Definition

end WireContract
