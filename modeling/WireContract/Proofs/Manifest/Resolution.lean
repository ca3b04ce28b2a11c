import WireContract.Manifest.Resolve
import WireContract.Proofs.Type.Scope
import WireContract.Proofs.Type.Writing

/-!
# What names resolve to

A written type becomes an expression of the table it is read against: its references lead to slots
of the table, its parameters are those in scope, and the compound forms build containers of the
right number of elements only.

* `TypeForm.ind`: induction on a written type;
* `resolve_yields`: what is resolved is scoped;
* `TypeDecl.resolve_yields`, `MethodDecl.resolve_yields`: the same for declarations of types and of
  methods.
-/

namespace WireContract

open Manifest (Fault)

/-! ## 1. Written types -/

namespace TypeForm

/-- Induction on a written type, with the hypothesis for everything directly inside it. -/
@[elab_as_elim]
theorem ind {motive : TypeForm → Prop} (bare : ∀ name, motive (.bare name))
    (array : ∀ elem, motive elem → motive (.array elem))
    (set : ∀ elem, motive elem → motive (.set elem))
    (tuple : ∀ elems, (∀ elem ∈ elems, motive elem) → motive (.tuple elems))
    (variadic : ∀ elem, motive elem → motive (.variadic elem))
    (record : ∀ key value, motive key → motive value → motive (.record key value))
    (union : ∀ members, (∀ member ∈ members, motive member) → motive (.union members))
    (literal : ∀ values, motive (.literal values))
    (optional : ∀ inner, motive inner → motive (.optional inner))
    (ref : ∀ name args, (∀ arg ∈ args, motive arg) → motive (.ref name args)) (form : TypeForm) :
    motive form :=
  @TypeForm.rec motive (fun forms => ∀ form ∈ forms, motive form)
    bare array set tuple variadic record union literal optional ref
    (fun _ h => absurd h List.not_mem_nil)
    (fun _ _ head tail => List.forall_mem_cons.mpr ⟨head, tail⟩)
    form

theorem resolveAll_eq_mapM (scope : Scope) (forms : List TypeForm) :
    resolveAll scope forms = forms.mapM (resolve scope) := by
  induction forms with
  | nil => rfl
  | cons form rest ih => rw [resolveAll, ih, List.mapM_cons]

end TypeForm

/-- Whether an expression is scoped where it is read. -/
def Scope.Admits (scope : Scope) (ty : Ty) : Prop :=
  ty.IsScoped scope.types.size scope.generics

/-- Lists of one element type. -/
theorem Scope.Admits.repeated {scope : Scope} {kind : ContainerKind} {variadic : Bool} {elem : Ty}
    (h : scope.Admits elem) (hkind : kind.Admits 1 variadic) :
    scope.Admits (.container kind [elem] variadic) :=
  Ty.isScoped_container_iff.mpr ⟨hkind, List.forall_mem_singleton.mpr h⟩

theorem builtinType?_admitted {scope : Scope} {name : String} {ty : Ty}
    (h : builtinType? name = some ty) : scope.Admits ty := by
  unfold builtinType? at h
  split at h <;> cases h <;> exact (Ty.isScoped_atom_iff rfl).mpr trivial

theorem Scope.resolveName_yields (scope : Scope) (name : String) :
    Yields (scope.resolveName name) scope.Admits := by
  unfold resolveName
  split
  · rename_i hname
    exact .ok (Ty.isScoped_generic_iff.mpr (by simpa using hname))
  · split
    · rename_i ty hty
      exact .ok (builtinType?_admitted hty)
    · split
      · rename_i id hid
        exact .ok (Ty.isScoped_named_iff.mpr ⟨TypeTable.lookup_lt hid, by simp⟩)
      · exact .error _

/-- **What is resolved is scoped.** -/
theorem TypeForm.resolve_yields (scope : Scope) (form : TypeForm) :
    Yields (form.resolve scope) scope.Admits := by
  induction form using TypeForm.ind with
  | bare name => exact scope.resolveName_yields name
  | array elem ih => exact ih.map fun ty hty => hty.repeated rfl
  | set elem ih => exact ih.map fun ty hty => hty.repeated rfl
  | variadic elem ih => exact ih.map fun ty hty => hty.repeated rfl
  | tuple elems ih =>
    rw [resolve, resolveAll_eq_mapM]
    exact (Yields.mapM ih).map fun tys htys => Ty.isScoped_container_iff.mpr ⟨trivial, htys⟩
  | record key value ihkey ihvalue =>
    rw [resolve]
    refine ihkey.bind fun keyTy hkey => ihvalue.bind fun valueTy hvalue => .ok ?_
    refine Ty.isScoped_container_iff.mpr ⟨⟨rfl, rfl⟩, ?_⟩
    exact List.forall_mem_cons.mpr ⟨hkey, List.forall_mem_singleton.mpr hvalue⟩
  | union members ih =>
    rw [resolve, resolveAll_eq_mapM]
    exact (Yields.mapM ih).map fun tys htys => Ty.isScoped_union_iff.mpr htys
  | literal values => exact .ok ((Ty.isScoped_atom_iff rfl).mpr trivial)
  | optional inner ih => exact ih.map fun ty hty => Ty.isScoped_optional_iff.mpr hty
  | ref name args ih =>
    rw [resolve, resolveAll_eq_mapM]
    have hname := scope.resolveName_yields name
    split
    · exact .error _
    · rename_i target others hresolved
      have htarget := (Ty.isScoped_named_iff.mp (hname _ hresolved)).1
      exact (Yields.mapM ih).map fun tys htys => Ty.isScoped_named_iff.mpr ⟨htarget, htys⟩
    · rename_i ty hother hresolved
      split
      · exact .ok (hname ty hresolved)
      · exact .error _

/-! ## 2. Declarations -/

theorem FieldDecl.resolve_yields (types : TypeTable) (owner : String) (generics : List String)
    (f : FieldDecl) :
    Yields (f.resolve types owner generics) fun field =>
      field.ty.IsScoped types.size generics :=
  (f.ty.resolve_yields _).bind fun _ hty => .ok hty

/-- A declaration gives a definition that stays within its own type parameters. -/
theorem TypeDecl.resolve_yields (types : TypeTable) (name : String) (decl : TypeDecl) :
    Yields (decl.resolve types name) fun body => body.IsScoped types.size := by
  cases decl with
  | struct doc generics fields =>
    have hfields := Yields.mapM fun f (_ : f ∈ fields) =>
      f.resolve_yields types name generics
    exact hfields.bind fun fields hscoped => .ok (List.forall_mem_map.mpr hscoped)
  | enumeration doc members => exact .ok fun ty hty => absurd hty List.not_mem_nil
  | «alias» generics ty =>
    exact (ty.resolve_yields _).bind fun ty hty => .ok (List.forall_mem_singleton.mpr hty)

theorem ParamDecl.resolve_yields (types : TypeTable) (method : String) (p : ParamDecl) :
    Yields (p.resolve types method) fun param => param.ty.IsScoped types.size [] :=
  (p.ty.resolve_yields _).bind fun _ hty => .ok hty

/-- A method declaration gives a signature without type parameters. -/
theorem MethodDecl.resolve_yields (types : TypeTable) (m : MethodDecl) :
    Yields (m.resolve types) fun signature =>
      (∀ p ∈ signature.params, p.ty.IsScoped types.size []) ∧
        signature.returns.IsScoped types.size [] := by
  have hparams := Yields.mapM fun p (_ : p ∈ m.params) => p.resolve_yields types m.name
  refine hparams.bind fun params hscoped => ?_
  exact (m.returns.resolve_yields _).bind fun returns hreturns => .ok ⟨hscoped, hreturns⟩

end WireContract
