import Mathlib.Data.List.Basic
import WireContract.Proofs.Type.Soundness

/-!
# Renumbering definitions

A definition may have one number in one table and another in the next. To renumber an expression is
to change the numbers in its references and nothing else, so that everything that is said of an
expression part by part goes through.

* `Ty.rename`, `Field.rename`, `Definition.rename`: with other numbers in the references;
* `parts_rename`, `mentions_rename`, `heads_rename`: what becomes of the parts and the references;
* `shape_rename`: absence is split off as before;
* `IsSound.rename`: a sound expression is sound over any table that has its references under their
  new numbers.
-/

namespace WireContract

variable {ρ : DefId → DefId}

namespace Ty

/-! ## 1. Expressions -/

mutual

/-- The expression with other numbers in its references. -/
def rename (ρ : DefId → DefId) : Ty → Ty
  | .named target args => .named (ρ target) (renameAll ρ args)
  | .container kind elems variadic => .container kind (renameAll ρ elems) variadic
  | .union members => .union (renameAll ρ members)
  | .optional inner => .optional (rename ρ inner)
  | .primitive kind => .primitive kind
  | .generic name => .generic name
  | .literals values => .literals values
  | .absent => .absent
  | .any => .any

def renameAll (ρ : DefId → DefId) : List Ty → List Ty
  | [] => []
  | ty :: rest => rename ρ ty :: renameAll ρ rest

end

theorem renameAll_eq_map (tys : List Ty) : renameAll ρ tys = tys.map (rename ρ) := by
  induction tys with
  | nil => rfl
  | cons ty rest ih => rw [renameAll, ih, List.map_cons]

@[simp] theorem rename_named (target : DefId) (args : List Ty) :
    rename ρ (.named target args) = .named (ρ target) (args.map (rename ρ)) := by
  rw [rename, renameAll_eq_map]

@[simp] theorem rename_container (kind : ContainerKind) (elems : List Ty) (variadic : Bool) :
    rename ρ (.container kind elems variadic) =
      .container kind (elems.map (rename ρ)) variadic := by
  rw [rename, renameAll_eq_map]

@[simp] theorem rename_union (members : List Ty) :
    rename ρ (.union members) = .union (members.map (rename ρ)) := by
  rw [rename, renameAll_eq_map]

/-- Numbers that stay leave the expression as it is. -/
theorem rename_id (ty : Ty) : ty.rename id = ty := by
  induction ty using Ty.ind with
  | named target args ih => rw [rename_named, List.map_congr_left ih, List.map_id', id]
  | container kind elems variadic ih => rw [rename_container, List.map_congr_left ih, List.map_id']
  | union members ih => rw [rename_union, List.map_congr_left ih, List.map_id']
  | optional inner ih => rw [rename, ih]
  | _ => rfl

theorem flatMap_parts_rename {tys : List Ty}
    (ih : ∀ ty ∈ tys, (ty.rename ρ).parts = ty.parts.map (rename ρ)) :
    (tys.map (rename ρ)).flatMap parts = (tys.flatMap parts).map (rename ρ) := by
  rw [List.flatMap_map, List.map_flatMap]
  exact List.flatMap_congr ih

/-- **The parts are those of the expression, renumbered.** -/
theorem parts_rename (ty : Ty) : (ty.rename ρ).parts = ty.parts.map (rename ρ) := by
  induction ty using Ty.ind with
  | named target args ih =>
    rw [rename_named, parts_named, parts_named, List.map_cons, rename_named,
      flatMap_parts_rename ih]
  | container kind elems variadic ih =>
    rw [rename_container, parts_container, parts_container, List.map_cons, rename_container,
      flatMap_parts_rename ih]
  | union members ih =>
    rw [rename_union, parts_union, parts_union, List.map_cons, rename_union,
      flatMap_parts_rename ih]
  | optional inner ih => rw [rename, parts, parts, List.map_cons, ih, rename]
  | _ => rfl

/-- **The mentions are those of the expression, renumbered.** -/
theorem mentions_rename (ty : Ty) : (ty.rename ρ).mentions = ty.mentions.map ρ := by
  have htarget : ∀ part : Ty, (part.rename ρ).target? = part.target?.map ρ := by
    intro part
    cases part with
    | named target args => rw [rename_named]; rfl
    | container kind elems variadic => rw [rename_container]; rfl
    | union members => rw [rename_union]; rfl
    | _ => rfl
  rw [mentions, parts_rename, List.filterMap_map, mentions, List.map_filterMap]
  exact List.filterMap_congr fun part _ => htarget part

/-- So are the references at the top. -/
theorem heads_rename (ty : Ty) : (ty.rename ρ).heads = ty.heads.map ρ := by
  induction ty using Ty.ind with
  | named target args _ => rw [rename_named]; rfl
  | container kind elems variadic _ => rw [rename_container]; rfl
  | union members ih =>
    rw [rename_union, heads, heads, headsOfAll_eq_flatMap, headsOfAll_eq_flatMap,
      List.flatMap_map, List.map_flatMap]
    exact List.flatMap_congr ih
  | optional inner ih => rw [rename, heads, heads, ih]
  | _ => rfl

theorem isAbsent_rename (ty : Ty) : (ty.rename ρ).isAbsent = ty.isAbsent := by
  cases ty with
  | named target args => rw [rename_named]; rfl
  | container kind elems variadic => rw [rename_container]; rfl
  | union members => rw [rename_union]; rfl
  | _ => rfl

theorem anyAdmitsAbsence_eq_any (tys : List Ty) :
    anyAdmitsAbsence tys = tys.any admitsAbsence := by
  induction tys with
  | nil => rfl
  | cons ty rest ih => rw [anyAdmitsAbsence, ih, List.any_cons]

/-- Whether absence is admitted shows without the references. -/
theorem admitsAbsence_rename (ty : Ty) : (ty.rename ρ).admitsAbsence = ty.admitsAbsence := by
  induction ty using Ty.ind with
  | primitive kind => cases kind <;> rfl
  | named target args _ => rw [rename_named]; rfl
  | container kind elems variadic _ => rw [rename_container]; rfl
  | union members ih =>
    rw [rename_union, admitsAbsence, admitsAbsence, anyAdmitsAbsence_eq_any,
      anyAdmitsAbsence_eq_any, List.any_map, Bool.eq_iff_iff, List.any_eq_true, List.any_eq_true]
    exact exists_congr fun ty => and_congr_right fun hty => by rw [Function.comp_apply, ih ty hty]
  | _ => rfl

theorem present_map_rename (members : List Ty) :
    present (members.map (rename ρ)) = (present members).map (rename ρ) := by
  rw [present, present, List.filter_map]
  congr 1
  exact List.filter_congr fun ty _ => by rw [Function.comp_apply, isAbsent_rename]

theorem unionOf_map_rename (tys : List Ty) :
    unionOf (tys.map (rename ρ)) = (unionOf tys).rename ρ := by
  rcases tys with _ | ⟨first, _ | ⟨second, rest⟩⟩
  · rfl
  · rfl
  · exact (rename_union (first :: second :: rest)).symm

/-- **A sound expression is sound over any table** that has its references under their new numbers,
    with as many parameters. -/
theorem IsSound.rename {types types' : TypeTable} {ty : Ty} (h : ty.IsSound types)
    (hids : ∀ id ∈ ty.mentions, ∀ body, types.get id = .ok body →
      ∃ body', types'.get (ρ id) = .ok body' ∧ body'.generics.length = body.generics.length) :
    (ty.rename ρ).IsSound types' := by
  rw [IsSound, parts_rename]
  refine List.forall_mem_map.mpr fun part hpart => ?_
  have hfits := h part hpart
  cases part with
  | named target args =>
    obtain ⟨body, hbody, hlen⟩ := hfits
    obtain ⟨body', hbody', hlen'⟩ := hids target (mem_mentions_iff.mpr ⟨args, hpart⟩) body hbody
    rw [rename_named]
    exact ⟨body', hbody', by rw [List.length_map, hlen, hlen']⟩
  | container kind elems variadic =>
    rw [rename_container, FitsTable, List.length_map]
    exact hfits
  | union members =>
    rw [rename_union]
    exact fun hnil => hfits (List.map_eq_nil_iff.mp hnil)
  | _ => exact hfits

end Ty

/-! ## 2. Definitions -/

/-- The field with other numbers in the references of its type. -/
def Field.rename (ρ : DefId → DefId) (f : Field) : Field := { f with ty := f.ty.rename ρ }

/-- **Absence is split off as before.** -/
theorem Field.shape_rename (f : Field) :
    (f.rename ρ).shape = (f.shape.1.rename ρ, f.shape.2) := by
  obtain ⟨name, ty, optional, default⟩ := f
  cases ty with
  | optional inner => rfl
  | union members =>
    have hany : (members.map (Ty.rename ρ)).any Ty.isAbsent = members.any Ty.isAbsent := by
      rw [List.any_map]
      exact congrArg members.any (funext fun ty => Ty.isAbsent_rename ty)
    simp only [rename, shape, Ty.rename_union, hany, Ty.present_map_rename, Ty.unionOf_map_rename]
    split
    · rfl
    · simp only [Ty.rename_union]
  | named target args => simp only [rename, shape, Ty.rename_named]
  | container kind elems variadic => simp only [rename, shape, Ty.rename_container]
  | _ => rfl

/-- As many fields have to be there. -/
theorem requiredFields_rename (fields : List Field) :
    ((fields.map (Field.rename ρ)).filter Field.isRequired).length =
      (fields.filter Field.isRequired).length := by
  have hsame : Field.isRequired ∘ Field.rename ρ = Field.isRequired := by
    funext f
    rw [Function.comp_apply, Field.isRequired, Field.shape_rename, Field.isRequired]
  rw [List.filter_map, List.length_map, hsame]

namespace Definition

/-- The definition with other numbers in its references. -/
def rename (ρ : DefId → DefId) : Definition → Definition
  | .struct s => .struct { s with fields := s.fields.map (Field.rename ρ) }
  | .enumeration e => .enumeration e
  | .alias a => .alias { a with ty := a.ty.rename ρ }

@[simp] theorem name_rename (body : Definition) : (body.rename ρ).name = body.name := by
  cases body <;> rfl

@[simp] theorem generics_rename (body : Definition) :
    (body.rename ρ).generics = body.generics := by
  cases body <;> rfl

@[simp] theorem constants_rename (body : Definition) :
    (body.rename ρ).constants = body.constants := by
  cases body <;> rfl

theorem rename_id (body : Definition) : body.rename id = body := by
  cases body with
  | struct s =>
    have hfields : s.fields.map (Field.rename id) = s.fields := by
      rw [List.map_congr_left fun f _ => show f.rename id = f by rw [Field.rename, Ty.rename_id],
        List.map_id']
    rw [rename, hfields]
  | enumeration e => rfl
  | «alias» a => rw [rename, Ty.rename_id]

theorem expressions_rename (body : Definition) :
    (body.rename ρ).expressions = body.expressions.map (Ty.rename ρ) := by
  cases body with
  | struct s =>
    simp only [rename, expressions, List.map_map]
    exact List.map_congr_left fun f _ => congrArg Prod.fst f.shape_rename
  | enumeration e => rfl
  | «alias» a => rfl

theorem mentions_rename (body : Definition) : (body.rename ρ).mentions = body.mentions.map ρ := by
  rw [mentions, expressions_rename, List.flatMap_map, mentions, List.map_flatMap]
  exact List.flatMap_congr fun ty _ => ty.mentions_rename

/-- **A body that can be written can be written over any table** that has its references under
    their new numbers, with as many parameters. -/
theorem IsSound.rename {types types' : TypeTable} {body : Definition} (h : body.IsSound types)
    (hids : ∀ id ∈ body.mentions, ∀ found, types.get id = .ok found →
      ∃ found', types'.get (ρ id) = .ok found' ∧
        found'.generics.length = found.generics.length) :
    (body.rename ρ).IsSound types' where
  expressions := by
    rw [expressions_rename]
    refine List.forall_mem_map.mpr fun ty hty => (h.expressions ty hty).rename fun id hid => ?_
    exact hids id (List.mem_flatMap_of_mem hty hid)
  constants := by
    rw [constants_rename]
    exact h.constants

end Definition

end WireContract
