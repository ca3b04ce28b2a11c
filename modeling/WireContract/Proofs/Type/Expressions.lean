import WireContract.Type.AliasCycle

/-!
# Type expressions and what they mention

A type expression is made of parts, and some of the parts are references to definitions. The
expressions of a definition are those its declaration is written with: the types of a struct's
fields, as far as they are split off from absence, and the body of an alias.

* `Ty.parts`: an expression and everything inside it, in the order of writing;
* `forall_parts_named_iff` and its neighbours: what holds of every part, kind by kind;
* `Ty.mentions`: the references among the parts;
* `heads_subset_mentions`: what the search for cycles of aliases follows is mentioned;
* `Definition.expressions`, `TypeTable.mentionsOf`: what a definition is written with and what
  that mentions.
-/

namespace WireContract

namespace Ty

/-! ## 1. Parts -/

/-- Induction on an expression, with the hypothesis for everything directly inside it. -/
@[elab_as_elim]
theorem ind {motive : Ty → Prop} (primitive : ∀ kind, motive (.primitive kind))
    (named : ∀ target args, (∀ arg ∈ args, motive arg) → motive (.named target args))
    (generic : ∀ name, motive (.generic name))
    (container : ∀ kind elems variadic, (∀ elem ∈ elems, motive elem) →
      motive (.container kind elems variadic))
    (union : ∀ members, (∀ member ∈ members, motive member) → motive (.union members))
    (literals : ∀ values, motive (.literals values))
    (optional : ∀ inner, motive inner → motive (.optional inner))
    (absent : motive .absent) (any : motive .any) (ty : Ty) : motive ty :=
  @Ty.rec motive (fun tys => ∀ ty ∈ tys, motive ty)
    primitive named generic container union literals optional absent any
    (fun _ h => absurd h List.not_mem_nil)
    (fun _ _ head tail => List.forall_mem_cons.mpr ⟨head, tail⟩)
    ty

mutual

/-- An expression and everything inside it, each in front of what it is made of. -/
def parts : Ty → List Ty
  | .named target args => .named target args :: partsOfAll args
  | .container kind elems variadic => .container kind elems variadic :: partsOfAll elems
  | .union members => .union members :: partsOfAll members
  | .optional inner => .optional inner :: parts inner
  | ty => [ty]

def partsOfAll : List Ty → List Ty
  | [] => []
  | ty :: rest => parts ty ++ partsOfAll rest

end

theorem partsOfAll_eq_flatMap (tys : List Ty) : partsOfAll tys = tys.flatMap parts := by
  induction tys with
  | nil => rfl
  | cons ty rest ih => rw [partsOfAll, ih, List.flatMap_cons]

@[simp] theorem parts_named (target : DefId) (args : List Ty) :
    parts (.named target args) = .named target args :: args.flatMap parts := by
  rw [parts, partsOfAll_eq_flatMap]

@[simp] theorem parts_container (kind : ContainerKind) (elems : List Ty) (variadic : Bool) :
    parts (.container kind elems variadic) =
      .container kind elems variadic :: elems.flatMap parts := by
  rw [parts, partsOfAll_eq_flatMap]

@[simp] theorem parts_union (members : List Ty) :
    parts (.union members) = .union members :: members.flatMap parts := by
  rw [parts, partsOfAll_eq_flatMap]

section Everywhere

variable {p : Ty → Prop}

theorem forall_mem_flatMap_parts {tys : List Ty} :
    (∀ part ∈ tys.flatMap parts, p part) ↔ ∀ ty ∈ tys, ∀ part ∈ ty.parts, p part := by
  constructor
  · exact fun h ty hty part hpart => h part (List.mem_flatMap_of_mem hty hpart)
  · intro h part hpart
    obtain ⟨ty, hty, hpart⟩ := List.mem_flatMap.mp hpart
    exact h ty hty part hpart

/-- What holds of every part holds of the expression and of every part of what is inside it. -/
theorem forall_parts_named_iff {target : DefId} {args : List Ty} :
    (∀ part ∈ (named target args).parts, p part) ↔
      p (.named target args) ∧ ∀ arg ∈ args, ∀ part ∈ arg.parts, p part := by
  rw [parts_named, List.forall_mem_cons, forall_mem_flatMap_parts]

theorem forall_parts_container_iff {kind : ContainerKind} {elems : List Ty} {variadic : Bool} :
    (∀ part ∈ (container kind elems variadic).parts, p part) ↔
      p (.container kind elems variadic) ∧ ∀ elem ∈ elems, ∀ part ∈ elem.parts, p part := by
  rw [parts_container, List.forall_mem_cons, forall_mem_flatMap_parts]

theorem forall_parts_union_iff {members : List Ty} :
    (∀ part ∈ (union members).parts, p part) ↔
      p (.union members) ∧ ∀ member ∈ members, ∀ part ∈ member.parts, p part := by
  rw [parts_union, List.forall_mem_cons, forall_mem_flatMap_parts]

theorem forall_parts_optional_iff {inner : Ty} :
    (∀ part ∈ (optional inner).parts, p part) ↔
      p (.optional inner) ∧ ∀ part ∈ inner.parts, p part := by
  rw [parts, List.forall_mem_cons]

/-- An expression with nothing inside it. -/
theorem forall_parts_atom_iff {ty : Ty} (h : ty.parts = [ty]) :
    (∀ part ∈ ty.parts, p part) ↔ p ty := by
  rw [h, List.forall_mem_singleton]

end Everywhere

/-- The case of an expression with others directly inside it. -/
theorem parts_subset_of_inside {part ty : Ty} {inside : List Ty}
    (hty : ty.parts = ty :: inside.flatMap parts)
    (ih : ∀ one ∈ inside, part ∈ one.parts → part.parts ⊆ one.parts) (h : part ∈ ty.parts) :
    part.parts ⊆ ty.parts := by
  rw [hty] at h
  rcases List.mem_cons.mp h with rfl | h
  · exact List.Subset.refl _
  · obtain ⟨one, hone, hpart⟩ := List.mem_flatMap.mp h
    rw [hty]
    exact fun p hp => List.mem_cons_of_mem _ (List.mem_flatMap_of_mem hone (ih one hone hpart hp))

/-- What is inside a part is inside the whole. -/
theorem parts_subset_of_mem {part ty : Ty} (h : part ∈ ty.parts) : part.parts ⊆ ty.parts := by
  induction ty using Ty.ind with
  | named target args ih => exact parts_subset_of_inside (parts_named target args) ih h
  | container kind elems variadic ih =>
    exact parts_subset_of_inside (parts_container kind elems variadic) ih h
  | union members ih => exact parts_subset_of_inside (parts_union members) ih h
  | optional inner ih =>
    have hparts : (optional inner).parts = optional inner :: [inner].flatMap parts := by
      rw [parts, List.flatMap_singleton]
    exact parts_subset_of_inside hparts (List.forall_mem_singleton.mpr ih) h
  | _ =>
    obtain rfl := List.mem_singleton.mp h
    exact List.Subset.refl _

/-! ## 2. Mentions -/

/-- The definition that an expression refers to, if it is a reference. -/
def target? : Ty → Option DefId
  | .named target _ => some target
  | _ => none

/-- The definitions that an expression refers to, in the order of writing: a reference in front of
    those in its arguments. -/
def mentions (ty : Ty) : List DefId := ty.parts.filterMap target?

theorem mem_mentions_iff {ty : Ty} {id : DefId} :
    id ∈ ty.mentions ↔ ∃ args, Ty.named id args ∈ ty.parts := by
  rw [mentions, List.mem_filterMap]
  constructor
  · intro h
    rcases h with ⟨part, hpart, h⟩
    cases part with
    | named target args =>
      obtain rfl : target = id := by simpa [target?] using h
      exact ⟨args, hpart⟩
    | _ => cases h
  · intro h
    rcases h with ⟨args, hpart⟩
    exact ⟨_, hpart, rfl⟩

theorem filterMap_target?_flatMap_parts (tys : List Ty) :
    (tys.flatMap parts).filterMap target? = tys.flatMap mentions :=
  List.filterMap_flatMap

@[simp] theorem mentions_named (target : DefId) (args : List Ty) :
    mentions (.named target args) = target :: args.flatMap mentions := by
  have h : target? (.named target args) = some target := rfl
  rw [mentions, parts_named, List.filterMap_cons_some h, filterMap_target?_flatMap_parts]

@[simp] theorem mentions_container (kind : ContainerKind) (elems : List Ty) (variadic : Bool) :
    mentions (.container kind elems variadic) = elems.flatMap mentions := by
  rw [mentions, parts_container, List.filterMap_cons_none rfl, filterMap_target?_flatMap_parts]

@[simp] theorem mentions_union (members : List Ty) :
    mentions (.union members) = members.flatMap mentions := by
  rw [mentions, parts_union, List.filterMap_cons_none rfl, filterMap_target?_flatMap_parts]

@[simp] theorem mentions_optional (inner : Ty) : mentions (.optional inner) = mentions inner := by
  rw [mentions, parts, List.filterMap_cons_none rfl, mentions]

@[simp] theorem mentions_primitive (kind : Primitive) : mentions (.primitive kind) = [] := rfl

@[simp] theorem mentions_generic (name : String) : mentions (.generic name) = [] := rfl

@[simp] theorem mentions_literals (values : List Json) : mentions (.literals values) = [] := rfl

@[simp] theorem mentions_absent : mentions .absent = [] := rfl

@[simp] theorem mentions_any : mentions .any = [] := rfl

/-- What is mentioned in a part is mentioned in the whole. -/
theorem mentions_subset_of_mem_parts {part ty : Ty} (h : part ∈ ty.parts) :
    part.mentions ⊆ ty.mentions := by
  intro id hid
  obtain ⟨args, hargs⟩ := mem_mentions_iff.mp hid
  exact mem_mentions_iff.mpr ⟨args, parts_subset_of_mem h hargs⟩

theorem flatMap_mentions_present (members : List Ty) :
    (present members).flatMap mentions = members.flatMap mentions := by
  induction members with
  | nil => rfl
  | cons member rest ih =>
    have hrest : present rest = rest.filter fun ty => !ty.isAbsent := rfl
    rw [present, List.filter_cons, ← hrest]
    cases member with
    | absent => exact ih
    | _ => simp [isAbsent, ih]

theorem mentions_unionOf (tys : List Ty) : (unionOf tys).mentions = tys.flatMap mentions := by
  rcases tys with _ | ⟨first, _ | ⟨second, rest⟩⟩
  · rfl
  · rw [unionOf, List.flatMap_singleton]
  · exact mentions_union _

theorem headsOfAll_eq_flatMap (tys : List Ty) : headsOfAll tys = tys.flatMap heads := by
  induction tys with
  | nil => rfl
  | cons ty rest ih => rw [headsOfAll, ih, List.flatMap_cons]

/-- What stands at the top of an expression is mentioned in it. -/
theorem heads_subset_mentions (ty : Ty) : ty.heads ⊆ ty.mentions := by
  induction ty using Ty.ind with
  | named target args _ => simp [heads]
  | union members ih =>
    intro id hid
    rw [heads, headsOfAll_eq_flatMap] at hid
    obtain ⟨member, hmember, h⟩ := List.mem_flatMap.mp hid
    rw [mentions_union]
    exact List.mem_flatMap_of_mem hmember (ih member hmember h)
  | optional inner ih =>
    rw [heads, mentions_optional]
    exact ih
  | _ => exact List.nil_subset _

end Ty

/-! ## 3. Definitions -/

/-- Splitting absence off the type of a field loses no reference. -/
theorem Field.mentions_shape (f : Field) : f.shape.1.mentions = f.ty.mentions := by
  unfold shape
  split
  · rename_i inner hty
    rw [hty, Ty.mentions_optional]
  · rename_i members hty
    rw [hty, Ty.mentions_union]
    split
    · rw [Ty.mentions_unionOf, Ty.flatMap_mentions_present]
    · rw [Ty.mentions_union]
  · rfl

/-- The expressions that the declaration of a definition is written with. -/
def Definition.expressions : Definition → List Ty
  | .struct s => s.fields.map fun f => f.shape.1
  | .enumeration _ => []
  | .alias a => [a.ty]

/-- The definitions that a definition refers to, in the order of writing. -/
def Definition.mentions (body : Definition) : List DefId := body.expressions.flatMap Ty.mentions

/-- What the definition of a number mentions; nothing where there is no definition. -/
def TypeTable.mentionsOf (t : TypeTable) (id : DefId) : List DefId :=
  match t.get id with
  | .ok body => body.mentions
  | .error _ => []

theorem TypeTable.mentionsOf_of_get {t : TypeTable} {id : DefId} {body : Definition}
    (h : t.get id = .ok body) : t.mentionsOf id = body.mentions := by
  rw [mentionsOf, h]

end WireContract
