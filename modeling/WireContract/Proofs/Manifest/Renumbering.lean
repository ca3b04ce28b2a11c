import WireContract.Proofs.Bindings.Renumbering
import WireContract.Proofs.Manifest.Resolution

/-!
# What names resolve to under other numbers

Two tables may have the same names under different numbers. A written type that resolves against
the one resolves against the other, to the same expression under the other numbers. A table may have
more names than the other without any effect.

* `TypeTable.Carries`: the names of a table under other numbers in another;
* `TypeForm.resolve_carries`: what a written type resolves to;
* `TypeDecl.resolve_carries`, `MethodDecl.resolve_carries`: the same for declarations of types and
  of methods.
-/

namespace WireContract

open Manifest (Fault)

variable {ρ : DefId → DefId}

/-- Whether every name of the first table is one of the second, under the other number. -/
def TypeTable.Carries (ρ : DefId → DefId) (t t' : TypeTable) : Prop :=
  ∀ name id, t.lookup name = some id → t'.lookup name = some (ρ id)

/-- The signature with other numbers in the references of its types. -/
def Signature.rename (ρ : DefId → DefId) (s : Signature) : Signature :=
  { s with
    params := s.params.map fun p => { p with ty := p.ty.rename ρ }
    returns := s.returns.rename ρ }

/-! ## 1. Written types -/

theorem builtinType?_rename {name : String} {ty : Ty} (h : builtinType? name = some ty) :
    ty.rename ρ = ty := by
  unfold builtinType? at h
  split at h <;> cases h <;> rfl

section Resolution

variable {t t' : TypeTable} (h : t.Carries ρ t')

include h

theorem Scope.resolveName_carries (generics : List String) (place : String) (name : String) :
    Yields (Scope.resolveName ⟨t, generics, place⟩ name) fun ty =>
      Scope.resolveName ⟨t', generics, place⟩ name = .ok (ty.rename ρ) := by
  unfold resolveName
  split
  · exact .ok rfl
  · split
    · rename_i ty hty
      exact .ok (by rw [builtinType?_rename hty])
    · split
      · rename_i id hid
        refine .ok ?_
        simp only [h name id hid, Ty.reference, Ty.rename_named, List.map_nil]
      · exact .error _

/-- **A written type resolves to the same expression under other numbers.** -/
theorem TypeForm.resolve_carries (generics : List String) (place : String) (form : TypeForm) :
    Yields (form.resolve ⟨t, generics, place⟩) fun ty =>
      form.resolve ⟨t', generics, place⟩ = .ok (ty.rename ρ) := by
  have hall : ∀ {forms : List TypeForm},
      (∀ form ∈ forms, Yields (form.resolve ⟨t, generics, place⟩) fun ty =>
        form.resolve ⟨t', generics, place⟩ = .ok (ty.rename ρ)) →
      Yields (resolveAll ⟨t, generics, place⟩ forms) fun tys =>
        resolveAll ⟨t', generics, place⟩ forms = .ok (tys.map (Ty.rename ρ)) := by
    intro forms ih
    rw [resolveAll_eq_mapM, resolveAll_eq_mapM]
    exact Yields.mapM_mapM ih
  induction form using TypeForm.ind with
  | bare name => exact Scope.resolveName_carries h generics place name
  | array elem ih => exact ih.map_map fun ty => (Ty.rename_container .array [ty] false).symm
  | set elem ih => exact ih.map_map fun ty => (Ty.rename_container .array [ty] false).symm
  | variadic elem ih => exact ih.map_map fun ty => (Ty.rename_container .tuple [ty] true).symm
  | tuple elems ih => exact (hall ih).map_map fun _ => (Ty.rename_container ..).symm
  | record key value ihkey ihvalue =>
    rw [resolve]
    refine ihkey.bind fun keyTy hkey => ihvalue.bind fun valueTy hvalue => .ok ?_
    rw [resolve, hkey, hvalue, Ty.record, Ty.rename_container]
    rfl
  | union members ih => exact (hall ih).map_map fun _ => (Ty.rename_union _).symm
  | literal values => exact .ok rfl
  | optional inner ih => exact ih.map_map fun _ => rfl
  | ref name args ih =>
    rw [resolve, resolve]
    have hname := Scope.resolveName_carries h generics place name
    split
    · exact .error _
    · rename_i target others hresolved
      rw [hname _ hresolved, Ty.rename_named]
      exact (hall ih).map_map fun _ => (Ty.rename_named ..).symm
    · rename_i ty hother hresolved
      rw [hname _ hresolved]
      split
      · rename_i hempty
        refine .ok ?_
        cases ty with
        | named target others => exact absurd rfl (hother target others)
        | container kind elems variadic => simp
        | union members => simp
        | _ => simp [Ty.rename]
      · exact .error _

/-! ## 2. Declarations -/

theorem FieldDecl.resolve_carries (owner : String) (generics : List String) (f : FieldDecl) :
    Yields (f.resolve t owner generics) fun field =>
      f.resolve t' owner generics = .ok (field.rename ρ) := by
  refine (f.ty.resolve_carries h generics _).bind fun ty hty => .ok ?_
  rw [resolve, hty]
  rfl

/-- **A declaration gives the same definition under other numbers.** -/
theorem TypeDecl.resolve_carries (name : String) (decl : TypeDecl) :
    Yields (decl.resolve t name) fun body => decl.resolve t' name = .ok (body.rename ρ) := by
  cases decl with
  | struct doc generics fields =>
    have hfields := Yields.mapM_mapM fun f (_ : f ∈ fields) => f.resolve_carries h name generics
    refine hfields.bind fun fields hfields => .ok ?_
    rw [resolve, hfields]
    rfl
  | enumeration doc members => exact .ok rfl
  | «alias» generics ty =>
    refine (ty.resolve_carries h generics _).bind fun ty hty => .ok ?_
    rw [resolve, hty]
    rfl

theorem ParamDecl.resolve_carries (method : String) (p : ParamDecl) :
    Yields (p.resolve t method) fun param =>
      p.resolve t' method = .ok { param with ty := param.ty.rename ρ } := by
  refine (p.ty.resolve_carries h [] _).bind fun ty hty => .ok ?_
  rw [resolve, hty]
  rfl

/-- **A method declaration gives the same signature under other numbers.** -/
theorem MethodDecl.resolve_carries (m : MethodDecl) :
    Yields (m.resolve t) fun signature => m.resolve t' = .ok (signature.rename ρ) := by
  have hparams := Yields.mapM_mapM fun p (_ : p ∈ m.params) => p.resolve_carries h m.name
  refine hparams.bind fun params hparams => ?_
  refine (m.returns.resolve_carries h [] _).bind fun returns hreturns => .ok ?_
  rw [resolve, hparams]
  change (m.returns.resolve _ >>= _) = _
  rw [hreturns]
  rfl

end Resolution

end WireContract
