import WireContract.Proofs.Type.Soundness
import WireContract.Proofs.Type.Substitution

/-!
# Scoped type expressions

An expression is scoped over a number of definitions and some type parameters if it refers to no
other definitions, names no other parameters, and has containers of the right number of elements
only. An expression that is scoped over no parameters is closed: in place of the parameters of a
scoped expression closed arguments make a closed one.

* `Ty.IsScoped`, and what it says for every kind of expression;
* `isScoped_shape`: splitting absence off the type of a field keeps it scoped;
* `isScoped_substitute`: so does putting scoped arguments in place of all parameters;
* `Definition.IsScoped`, `TypeTable.IsScoped`: the same for bodies and for all bodies of a table.
-/

namespace WireContract

namespace Ty

/-- What being scoped asks of one part, whatever is inside it. -/
def StaysWithin (size : Nat) (names : List String) : Ty → Prop
  | .named target _ => target < size
  | .generic name => name ∈ names
  | .container kind elems variadic => kind.Admits elems.length variadic
  | _ => True

/-- Whether an expression refers to the first definitions only, names only these type parameters,
    and has containers only that their kind allows. -/
def IsScoped (size : Nat) (names : List String) (ty : Ty) : Prop :=
  ∀ part ∈ ty.parts, part.StaysWithin size names

section Kinds

variable {size : Nat} {names : List String}

theorem isScoped_named_iff {target : DefId} {args : List Ty} :
    IsScoped size names (.named target args) ↔
      target < size ∧ ∀ arg ∈ args, IsScoped size names arg :=
  forall_parts_named_iff

theorem isScoped_container_iff {kind : ContainerKind} {elems : List Ty} {variadic : Bool} :
    IsScoped size names (.container kind elems variadic) ↔
      kind.Admits elems.length variadic ∧ ∀ elem ∈ elems, IsScoped size names elem :=
  forall_parts_container_iff

theorem isScoped_union_iff {members : List Ty} :
    IsScoped size names (.union members) ↔ ∀ member ∈ members, IsScoped size names member :=
  forall_parts_union_iff.trans (and_iff_right trivial)

theorem isScoped_optional_iff {inner : Ty} :
    IsScoped size names (.optional inner) ↔ IsScoped size names inner :=
  forall_parts_optional_iff.trans (and_iff_right trivial)

/-- An expression with nothing inside it. -/
theorem isScoped_atom_iff {ty : Ty} (h : ty.parts = [ty]) :
    IsScoped size names ty ↔ ty.StaysWithin size names :=
  forall_parts_atom_iff h

theorem isScoped_generic_iff {name : String} :
    IsScoped size names (.generic name) ↔ name ∈ names :=
  isScoped_atom_iff rfl

/-- More definitions do no harm. -/
theorem IsScoped.mono {ty : Ty} {larger : Nat} (h : IsScoped size names ty) (hle : size ≤ larger) :
    IsScoped larger names ty := by
  intro part hpart
  have hstays := h part hpart
  cases part with
  | named target args => exact Nat.lt_of_lt_of_le hstays hle
  | _ => exact hstays

/-- The members that are not absence make a scoped type of their own. -/
theorem isScoped_unionOf {members : List Ty}
    (h : ∀ member ∈ members, IsScoped size names member) :
    IsScoped size names (unionOf members) := by
  rcases members with _ | ⟨first, _ | ⟨second, rest⟩⟩
  · exact (isScoped_atom_iff rfl).mpr trivial
  · exact h first List.mem_cons_self
  · exact isScoped_union_iff.mpr h

end Kinds

/-! ## Substitution -/

/-- **Scoped arguments in place of all parameters make a scoped expression.** -/
theorem isScoped_substitute {size : Nat} {names outer : List String} {b : Bindings}
    (hb : ∀ name ∈ names, ∃ arg, b.get? name = some arg ∧ IsScoped size outer arg) {ty : Ty}
    (h : IsScoped size names ty) : IsScoped size outer (ty.substitute b) := by
  induction ty using Ty.ind with
  | generic name =>
    obtain ⟨arg, hget, harg⟩ := hb name (isScoped_generic_iff.mp h)
    rw [substitute, hget]
    exact harg
  | named target args ih =>
    rw [isScoped_named_iff] at h
    rw [substitute_named, isScoped_named_iff]
    exact ⟨h.1, List.forall_mem_map.mpr fun arg harg => ih arg harg (h.2 arg harg)⟩
  | container kind elems variadic ih =>
    rw [isScoped_container_iff] at h
    rw [substitute_container, isScoped_container_iff, List.length_map]
    exact ⟨h.1, List.forall_mem_map.mpr fun elem helem => ih elem helem (h.2 elem helem)⟩
  | union members ih =>
    rw [isScoped_union_iff] at h
    rw [substitute_union, isScoped_union_iff]
    exact List.forall_mem_map.mpr fun member hm => ih member hm (h member hm)
  | optional inner ih =>
    rw [substitute, isScoped_optional_iff]
    exact ih (isScoped_optional_iff.mp h)
  | _ => exact (isScoped_atom_iff rfl).mpr trivial

/-- The arguments of a reference in place of all parameters. -/
theorem isScoped_substitute_bind {size : Nat} {generics outer : List String} {args : List Ty}
    (hl : generics.length = args.length) (hargs : ∀ arg ∈ args, IsScoped size outer arg) {ty : Ty}
    (h : IsScoped size generics ty) : IsScoped size outer (ty.substitute (bind generics args)) := by
  refine isScoped_substitute (fun name hname => ?_) h
  obtain ⟨arg, hget⟩ := exists_bind_get? hl hname
  exact ⟨arg, hget, hargs arg (bind_get?_mem hget)⟩

end Ty

/-! ## Definitions -/

section Definitions

variable {size : Nat} {names : List String}

/-- Splitting absence off the type of a field keeps it scoped. -/
theorem Field.isScoped_shape {f : Field} (h : f.ty.IsScoped size names) :
    f.shape.1.IsScoped size names := by
  unfold shape
  split
  · rename_i inner hty
    rw [hty] at h
    exact Ty.isScoped_optional_iff.mp h
  · rename_i members hty
    rw [hty] at h
    split
    · rw [Ty.isScoped_union_iff] at h
      exact Ty.isScoped_unionOf fun member hm => h member (List.mem_filter.mp hm).1
    · exact h
  · exact h

/-- The type expressions of a definition as they are declared. -/
def Definition.declaredTypes : Definition → List Ty
  | .struct s => s.fields.map (·.ty)
  | .enumeration _ => []
  | .alias a => [a.ty]

/-- Whether the body of a definition stays within its own type parameters and the first
    definitions. -/
def Definition.IsScoped (size : Nat) (body : Definition) : Prop :=
  ∀ ty ∈ body.declaredTypes, ty.IsScoped size body.generics

theorem Definition.IsScoped.expressions {body : Definition} (h : body.IsScoped size) :
    ∀ ty ∈ body.expressions, ty.IsScoped size body.generics := by
  cases body with
  | struct s =>
    refine List.forall_mem_map.mpr fun f hf => Field.isScoped_shape ?_
    exact h f.ty (List.mem_map_of_mem hf)
  | enumeration e => exact fun ty hty => absurd hty List.not_mem_nil
  | «alias» a => exact h

theorem Definition.IsScoped.mono {body : Definition} {larger : Nat} (h : body.IsScoped size)
    (hle : size ≤ larger) : body.IsScoped larger :=
  fun ty hty => (h ty hty).mono hle

/-- Whether the bodies of all definitions stay within their type parameters and the table. -/
def TypeTable.IsScoped (types : TypeTable) : Prop :=
  ∀ id body, types.get id = .ok body → body.IsScoped types.size

/-- Bodies that stay within their type parameters name no others. -/
theorem TypeTable.IsScoped.ownsParameters {types : TypeTable} (h : types.IsScoped) :
    types.OwnsParameters := by
  intro id a ha name hname
  exact h id _ ha a.ty List.mem_cons_self _ (Ty.mem_parameters_iff.mp hname)

end Definitions

end WireContract
