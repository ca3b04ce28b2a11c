import WireContract.Proofs.Registration
import WireContract.Proofs.Wire.Levels

/-!
# Parameters of a method

What a body is accepted for, and whether a session may be missing, is read off a signature parameter
by parameter. So it is known what becomes of both when one parameter changes its type.

* `decode_accepted_iff`, `decode_affirms`: every parameter decides for itself whether a body is
  accepted, for good or as far as the levels go;
* `Signature.retype`: the signature in which one parameter has another type;
* `forall_fields_iff`, `forall_fields_retype_iff`: its fields;
* `usesSession_retype`, `sessionOptional_retype`: and what it says of sessions.
-/

namespace WireContract

open Wire

/-! ## 1. Bodies -/

/-- Whether the comparison accepts a value for a field, as far as the levels go. -/
def Wire.AffirmsAt (checker : Checker) (path : Path) (f : Field) (ty : Ty) (v : Json) : Prop :=
  Affirms (checker ty v (path ++ [.member f.name]))

/-- If every field is content as far as the levels go, so is the whole. -/
theorem Wire.checkMembers_affirms {checker : Checker} {bindings : Ty.Bindings} {path : Path}
    {object : Entries Json} {fields : List Field}
    (h : ∀ f ∈ fields, FieldFits (AffirmsAt checker path f) bindings object f)
    (done : Entries Json) :
    Affirms (checkMembers checker bindings object path fields done) := by
  induction fields generalizing done with
  | nil => exact .inl ⟨done, rfl⟩
  | cons f rest ih =>
    rw [List.forall_mem_cons] at h
    unfold checkMembers
    split
    · rename_i v hv
      obtain ⟨out, hout⟩ | ⟨deep, hdeep⟩ := (fieldFits_of_some hv).mp h.1
      · rw [hout]
        exact ih h.2 _
      · rw [hdeep]
        exact .inr ⟨deep, rfl⟩
    · rename_i hv
      split
      · exact ih h.2 _
      · rename_i hdefault
        have hrequired : f.isRequired = false := by
          simpa [hdefault] using (fieldFits_of_none hv).mp h.1
        rw [if_neg (by rw [hrequired]; exact Bool.false_ne_true)]
        exact ih h.2 done

namespace Codec

variable {codec : Codec} {types : TypeTable} {s : StructDef} {body : List UInt8}

/-- A body that is no JSON object is not accepted. -/
theorem not_decode_accepted (hs : types.get codec.params = .ok (.struct s))
    (hbody : ∀ object, Json.read body ≠ .ok (.object object)) :
    ¬ Accepted (codec.decode types body) := by
  rintro ⟨args, hargs⟩
  rw [decode] at hargs
  split at hargs
  · cases hargs
  · rename_i v hread
    have hfields : checkFields (checkFrom types 0) s [] v [] = .ok args := by
      rw [arguments, hs] at hargs
      exact hargs
    unfold checkFields at hfields
    cases harity : checkArity s.name s.generics [] with
    | error fault =>
      rw [harity] at hfields
      cases hfields
    | ok _ =>
      rw [harity] at hfields
      cases v with
      | object object => exact hbody object hread
      | _ => cases hfields

variable {object : Entries Json} (hs : types.get codec.params = .ok (.struct s))
  (hgenerics : s.generics = []) (hread : Json.read body = .ok (.object object))

include hs hgenerics hread

theorem decode_eq_checkMembers :
    codec.decode types body = checkMembers (checkFrom types 0) [] object [] s.fields [] := by
  rw [decode, hread]
  change codec.arguments types _ = _
  rw [arguments, hs]
  change checkFields _ s [] _ [] = _
  rw [checkFields, hgenerics]
  rfl

/-- **Every parameter decides for itself** whether a body is accepted. -/
theorem decode_accepted_iff :
    Accepted (codec.decode types body) ↔
      ∀ f ∈ s.fields, FieldFits (AcceptsAt (checkFrom types 0) [] f) [] object f := by
  rw [decode_eq_checkMembers hs hgenerics hread]
  exact checkMembers_accepted_iff []

theorem decode_affirms
    (h : ∀ f ∈ s.fields, FieldFits (AffirmsAt (checkFrom types 0) [] f) [] object f) :
    Affirms (codec.decode types body) := by
  rw [decode_eq_checkMembers hs hgenerics hread]
  exact checkMembers_affirms h []

end Codec

/-! ## 2. Signatures -/

/-- A parameter with another type. -/
def Param.retype (p : Param) (ty : Ty) : Param := { p with ty }

@[simp] theorem Param.name_retype (p : Param) (ty : Ty) : (p.retype ty).name = p.name := rfl

@[simp] theorem Param.ty_retype (p : Param) (ty : Ty) : (p.retype ty).ty = ty := rfl

namespace Signature

variable {s : Signature} {before after : List Param} {p : Param} {ty : Ty}

/-- The fields in front of a parameter and behind it, and its own. -/
theorem forall_fields_iff (hs : s.params = before ++ p :: after) (P : Field → Prop) :
    (∀ f ∈ s.fields, P f) ↔
      (∀ q ∈ before ++ after, q.isSupplied = false → P q.field) ∧
        (p.isSupplied = false → P p.field) := by
  have hfields : ∀ f, f ∈ s.fields ↔ ∃ q ∈ s.params, q.isSupplied = false ∧ q.field = f := by
    intro f
    simp [fields, and_assoc]
  simp only [hfields, hs, forall_exists_index, and_imp]
  constructor
  · intro h
    refine ⟨fun q hq hsupplied => h _ q ?_ hsupplied rfl, fun hsupplied => h _ p ?_ hsupplied rfl⟩
    · exact List.mem_append.mpr ((List.mem_append.mp hq).imp_right (List.mem_cons_of_mem p))
    · exact List.mem_append_right _ List.mem_cons_self
  · rintro ⟨hothers, hown⟩ _ q hq hsupplied rfl
    rcases List.mem_append.mp hq with hq | hq
    · exact hothers q (List.mem_append_left _ hq) hsupplied
    · rcases List.mem_cons.mp hq with rfl | hq
      · exact hown hsupplied
      · exact hothers q (List.mem_append_right _ hq) hsupplied

/-- The signature in which a parameter has another type. -/
def retype (s : Signature) (before : List Param) (p : Param) (after : List Param) (ty : Ty) :
    Signature :=
  { s with params := before ++ p.retype ty :: after }

theorem forall_fields_retype_iff (s : Signature) (before : List Param) (p : Param)
    (after : List Param) (ty : Ty) (P : Field → Prop) :
    (∀ f ∈ (s.retype before p after ty).fields, P f) ↔
      (∀ q ∈ before ++ after, q.isSupplied = false → P q.field) ∧
        (p.isSupplied = false → P (p.retype ty).field) :=
  forall_fields_iff (s := s.retype before p after ty) rfl P

/-- The types of the parameters in a row that receive the session. -/
def sessionTypesIn (params : List Param) : List Ty :=
  (params.filter fun q => q.name == sessionParameter).map (·.ty)

/-- Those in front of a parameter, its own, and those behind. -/
theorem sessionTypesIn_split (before : List Param) (p : Param) (after : List Param) :
    sessionTypesIn (before ++ p :: after) =
      sessionTypesIn before ++
        ((if p.name = sessionParameter then [p.ty] else []) ++ sessionTypesIn after) := by
  simp only [sessionTypesIn, List.filter_append, List.filter_cons, List.map_append]
  by_cases h : p.name = sessionParameter <;> simp [h]

theorem sessionTypesIn_eq_nil_iff {params : List Param} :
    sessionTypesIn params = [] ↔ (params.all fun q => q.name != sessionParameter) = true := by
  simp [sessionTypesIn, List.filter_eq_nil_iff]

theorem sessionTypes_of_params (hs : s.params = before ++ p :: after) :
    s.sessionTypes = sessionTypesIn (before ++ p :: after) := by
  rw [sessionTypes, hs, sessionTypesIn]

theorem sessionTypes_retype (s : Signature) (before : List Param) (p : Param) (after : List Param)
    (ty : Ty) :
    (s.retype before p after ty).sessionTypes = sessionTypesIn (before ++ p.retype ty :: after) :=
  rfl

theorem usesSession_retype (hs : s.params = before ++ p :: after) :
    (s.retype before p after ty).usesSession = s.usesSession := by
  rw [usesSession, usesSession, sessionTypes_retype, sessionTypes_of_params hs,
    sessionTypesIn_split, sessionTypesIn_split, Bool.eq_iff_iff]
  by_cases h : p.name = sessionParameter <;> simp [h]

/-- The last of the session parameters decides whether a session may be missing, and a reference
    says that it may not. -/
theorem sessionOptional_retype (hs : s.params = before ++ p :: after) {target : DefId} :
    (s.retype before p after (.reference target)).sessionOptional =
      (s.sessionOptional &&
        !(p.name == sessionParameter && after.all fun q => q.name != sessionParameter)) := by
  rw [sessionOptional, sessionOptional, sessionTypes_retype, sessionTypes_of_params hs,
    sessionTypesIn_split, sessionTypesIn_split]
  by_cases h : p.name = sessionParameter
  · cases htypes : sessionTypesIn after with
    | nil =>
      rw [sessionTypesIn_eq_nil_iff.mp htypes]
      simp [h, Ty.reference, Ty.admitsAbsence]
    | cons first rest =>
      have hlater : (after.all fun q => q.name != sessionParameter) = false := by
        rw [Bool.eq_false_iff, ne_eq, ← sessionTypesIn_eq_nil_iff, htypes]
        exact List.cons_ne_nil first rest
      rw [hlater]
      simp [h]
  · simp [h]

end Signature

end WireContract
