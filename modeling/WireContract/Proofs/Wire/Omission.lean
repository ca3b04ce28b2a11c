import WireContract.Proofs.Type.Fields
import WireContract.Proofs.Wire.Inhabitation

/-!
# Fields that may be left out

Every field of a struct is checked by itself, so that taking one member out of an object changes the
outcome of no other. What decides then is whether the field may be left out: whether its shape says
so, which it does if it has a default.

* `Accepted`: an outcome that is a value;
* `checkMembers_accepted_iff`: the members of an object are accepted exactly if every field is
  content with what is there for it;
* `checkFields_erase_accepted_iff`: an accepted object without one of the fields is accepted exactly
  if the field may be left out;
* `checkFields_nil_accepted_iff`: and the object without members, if no field has to be there.
-/

namespace WireContract

namespace Wire

/-- The outcome is a value. -/
def Accepted {α : Type} (outcome : Except Fault α) : Prop := ∃ a, outcome = .ok a

section Outcomes

variable {α β : Type} {outcome : Except Fault α}

theorem accepted_map_iff (f : α → β) : Accepted (outcome.map f) ↔ Accepted outcome := by
  cases outcome <;> simp [Accepted, Except.map]

/-- One comparison behind another, where the second is accepted or not whatever the first gives. -/
theorem accepted_bind_iff {f : α → Except Fault β} {p : Prop} (h : ∀ a, Accepted (f a) ↔ p) :
    Accepted (outcome >>= f) ↔ Accepted outcome ∧ p := by
  cases outcome with
  | ok a => exact (h a).trans (iff_and_self.mpr fun _ => ⟨a, rfl⟩)
  | error fault =>
    refine iff_of_false ?_ ?_
    · rintro ⟨b, hb⟩
      cases hb
    · rintro ⟨⟨a, ha⟩, -⟩
      cases ha

theorem not_accepted_error (fault : Fault) : ¬ Accepted (.error fault : Except Fault α) := by
  rintro ⟨a, ha⟩
  cases ha

end Outcomes

theorem checkArity_accepted_iff {name : String} {generics : List String} {args : List Ty} :
    Accepted (checkArity name generics args) ↔ generics.length = args.length := by
  unfold checkArity
  split
  · rename_i h
    exact iff_of_true ⟨(), rfl⟩ h
  · rename_i h
    exact iff_of_false (not_accepted_error _) h

section Fields

variable {checker : Checker} {bindings : Ty.Bindings} {path : Path}

/-- Whether the comparison accepts a value for a field: the place it names has the field's name. -/
def AcceptsAt (checker : Checker) (path : Path) (f : Field) (ty : Ty) (v : Json) : Prop :=
  Accepted (checker ty v (path ++ [.member f.name]))

/-- **Every field decides for itself**: what was put together so far has no influence. -/
theorem checkMembers_accepted_iff {object : Entries Json} {fields : List Field}
    (done : Entries Json) :
    Accepted (checkMembers checker bindings object path fields done) ↔
      ∀ f ∈ fields, FieldFits (AcceptsAt checker path f) bindings object f := by
  induction fields generalizing done with
  | nil => exact iff_of_true ⟨done, rfl⟩ (by simp)
  | cons f rest ih =>
    rw [List.forall_mem_cons]
    unfold checkMembers
    split
    · rename_i v hv
      rw [fieldFits_of_some hv]
      exact accepted_bind_iff fun out => ih (done.put f.name out)
    · rename_i hv
      rw [fieldFits_of_none hv]
      split
      · rename_i default hdefault
        rw [ih, hdefault]
        exact (and_iff_right (Or.inl rfl)).symm
      · rename_i hdefault
        split
        · rename_i hrequired
          refine iff_of_false (not_accepted_error _) ?_
          simp [hdefault, hrequired]
        · rename_i hrequired
          rw [ih]
          exact (and_iff_right (Or.inr (by simpa using hrequired))).symm

theorem checkFields_accepted_iff {s : StructDef} {args : List Ty} {object : Entries Json} :
    Accepted (checkFields checker s args (.object object) path) ↔
      s.generics.length = args.length ∧
        ∀ f ∈ s.fields,
          FieldFits (AcceptsAt checker path f) (Ty.bind s.generics args) object f := by
  unfold checkFields
  refine (accepted_bind_iff fun _ => checkMembers_accepted_iff []).trans ?_
  rw [checkArity_accepted_iff]

/-- What is not there may be left out or not; the comparison is not asked. -/
theorem fieldFits_of_none_iff {fits : Ty → Json → Prop} {object : Entries Json} {f : Field}
    (h : object.get? f.name = none) : FieldFits fits bindings object f ↔ f.shape.2 = true := by
  rw [fieldFits_of_none h, Field.isRequired_eq_false_iff]
  exact or_iff_right_of_imp Field.shape_of_default

/-- **An accepted object without one of the fields is accepted exactly if the field may be left
    out.** -/
theorem checkFields_erase_accepted_iff {s : StructDef} (hs : s.FieldsDistinct) {args : List Ty}
    {object : Entries Json} (h : Accepted (checkFields checker s args (.object object) path))
    {f : Field} (hf : f ∈ s.fields) :
    Accepted (checkFields checker s args (.object (object.erase f.name)) path) ↔
      f.shape.2 = true := by
  rw [checkFields_accepted_iff] at h ⊢
  have hgone : (object.erase f.name).get? f.name = none := Entries.get?_erase_self object f.name
  constructor
  · intro herased
    exact (fieldFits_of_none_iff hgone).mp (herased.2 f hf)
  · intro hshape
    refine ⟨h.1, fun g hg => ?_⟩
    -- Another field finds what it found before; the erased one may be left out.
    by_cases hname : g.name = f.name
    · rw [hs.eq_of_name hf hg hname]
      exact (fieldFits_of_none_iff hgone).mpr hshape
    · have hkept := h.2 g hg
      rw [FieldFits] at hkept ⊢
      rwa [Entries.get?_erase_of_ne object f.name g.name hname]

/-- **The object without members is accepted exactly if no field has to be there**, and the struct
    takes as many arguments. -/
theorem checkFields_nil_accepted_iff {s : StructDef} {args : List Ty} :
    Accepted (checkFields checker s args (.object []) path) ↔
      s.generics.length = args.length ∧ s.requiredFields = 0 := by
  rw [checkFields_accepted_iff, StructDef.requiredFields_eq_zero_iff]
  refine and_congr_right fun _ => forall₂_congr fun f _ => ?_
  exact fieldFits_of_none_iff (Entries.get?_nil f.name)

end Fields

/-- The same for an object where a reference to the struct stands. -/
theorem check_erase_accepted_iff {types : TypeTable} {target : DefId} {s : StructDef}
    (hs : types.get target = .ok (.struct s)) (hdistinct : s.FieldsDistinct) {left : Nat}
    {args : List Ty} {object : Entries Json} {path : Path}
    (h : Accepted (check types left (.named target args) (.object object) path)) {f : Field}
    (hf : f ∈ s.fields) :
    Accepted (check types left (.named target args) (.object (object.erase f.name)) path) ↔
      f.shape.2 = true := by
  cases left with
  | zero => exact absurd h (not_accepted_error _)
  | succ left =>
    rw [check_named hs] at h ⊢
    have hfields := (accepted_map_iff Json.object).mp h
    exact (accepted_map_iff _).trans (checkFields_erase_accepted_iff hdistinct hfields hf)

end Wire

end WireContract
