import WireContract.Proofs.Bindings.Success
import WireContract.Proofs.Wire.Blame

/-!
# Checks that cannot trip over their types

Generation looks at every definition once, with its type parameters as they stand; the check comes
by substituted bodies, again and again, along a value. What the two have in common is kept by
substitution: an expression whose parts fit the table and whose references lead to what the methods
lead to stays one when such expressions are put in place of its parameters.

* `SchemaFree`: an outcome that is no fault of the type;
* `Registry.Covers`: the expressions of which generation has seen everything; what the check takes
  them apart into is covered as well;
* `check_schemaFree`: on what is covered, the check never blames the type.
-/

namespace WireContract

/-! ## 1. Outcomes -/

/-- The outcome is a value, or a fault that is not one of the type. -/
def Wire.SchemaFree {α : Type} (outcome : Except Wire.Fault α) : Prop :=
  ∀ reason, outcome ≠ .error (.schema reason)

/-! ## 2. What generation has seen -/

/-- An expression over what the methods lead to: its parts fit the table, and its references lead
    to definitions that are declared. -/
structure Registry.Covers (r : Registry) (ty : Ty) : Prop where
  sound : ty.IsSound r.types
  reached : ∀ id ∈ ty.mentions, r.Reaches id

namespace Registry

variable {r : Registry}

theorem covers_of_expresses (h : r.WellFormed) {ty : Ty} (hty : r.Expresses ty) : r.Covers ty :=
  ⟨h.isSound hty, fun _ hid => reaches_of_expresses hty hid⟩

theorem covers_of_flatMap {tys : List Ty} (hsound : ∀ ty ∈ tys, ty.IsSound r.types)
    (hreached : ∀ id ∈ tys.flatMap Ty.mentions, r.Reaches id) : ∀ ty ∈ tys, r.Covers ty :=
  fun ty hty => ⟨hsound ty hty, fun id hid => hreached id (List.mem_flatMap_of_mem hty hid)⟩

theorem Covers.arg {target : DefId} {args : List Ty} (h : r.Covers (.named target args)) :
    ∀ arg ∈ args, r.Covers arg := by
  have hreached := h.reached
  rw [Ty.mentions_named, List.forall_mem_cons] at hreached
  exact covers_of_flatMap (Ty.isSound_named_iff.mp h.sound).2 hreached.2

theorem Covers.elem {kind : ContainerKind} {elems : List Ty} {variadic : Bool}
    (h : r.Covers (.container kind elems variadic)) : ∀ elem ∈ elems, r.Covers elem := by
  have hreached := h.reached
  rw [Ty.mentions_container] at hreached
  exact covers_of_flatMap (Ty.isSound_container_iff.mp h.sound).2 hreached

theorem Covers.member {members : List Ty} (h : r.Covers (.union members)) :
    ∀ member ∈ members, r.Covers member := by
  have hreached := h.reached
  rw [Ty.mentions_union] at hreached
  exact covers_of_flatMap (Ty.isSound_union_iff.mp h.sound).2 hreached

theorem Covers.inner {inner : Ty} (h : r.Covers (.optional inner)) : r.Covers inner :=
  ⟨Ty.isSound_optional_iff.mp h.sound, fun id hid => h.reached id (by rwa [Ty.mentions_optional])⟩

/-- **Covered arguments in a covered expression make a covered expression**, whatever is bound to
    what. -/
theorem Covers.substitute {generics : List String} {args : List Ty} {ty : Ty} (h : r.Covers ty)
    (hargs : ∀ arg ∈ args, r.Covers arg) : r.Covers (ty.substitute (Ty.bind generics args)) where
  sound := Ty.isSound_substitute
    (fun _ _ hget => (hargs _ (Ty.bind_get?_mem hget)).sound) h.sound
  reached := Ty.mentions_substitute
    (fun _ _ hget => (hargs _ (Ty.bind_get?_mem hget)).reached) h.reached

/-- A covered reference leads to a definition with as many parameters, and the body is covered
    with the arguments in place. -/
theorem Covers.body (hr : r.WellFormed) {target : DefId} {args : List Ty}
    (h : r.Covers (.named target args)) :
    ∃ body, r.types.get target = .ok body ∧ args.length = body.generics.length ∧
      ∀ ty ∈ body.expressions, r.Covers (ty.substitute (Ty.bind body.generics args)) := by
  obtain ⟨⟨body, hbody, hlen⟩, -⟩ := Ty.isSound_named_iff.mp h.sound
  have htarget : r.Reaches target := h.reached target (by simp)
  refine ⟨body, hbody, hlen, fun ty hty => ?_⟩
  exact (covers_of_expresses hr (expresses_of_definition htarget hbody hty)).substitute h.arg

/-- What the check comes to from what is covered is covered. -/
theorem Covers.hands (hr : r.WellFormed) {ty inner : Ty} (h : r.Covers ty)
    (hinner : Wire.Hands r.types ty inner) : r.Covers inner := by
  cases hinner with
  | optional => exact h.inner
  | union _ _ hmember => exact h.member _ hmember
  | container _ _ _ _ helem => exact h.elem _ helem
  | named target args body _ hb _ hty =>
    obtain ⟨body', hbody, -, hall⟩ := h.body hr
    obtain rfl : body = body' := Except.ok.inj (hb.symm.trans hbody)
    exact hall _ hty

/-- What is covered has nothing at fault by itself. -/
theorem Covers.not_ownFault {ty : Ty} {reason : SchemaFault} (h : r.Covers ty) :
    ¬ Wire.OwnFault r.types ty reason := by
  intro hfault
  cases hfault with
  | get _ _ _ hget =>
    obtain ⟨⟨body, hbody, -⟩, -⟩ := Ty.isSound_named_iff.mp h.sound
    cases hget.symm.trans hbody
  | arity _ _ body hb hl =>
    obtain ⟨⟨body', hbody, hlen⟩, -⟩ := Ty.isSound_named_iff.mp h.sound
    obtain rfl : body = body' := Except.ok.inj (hb.symm.trans hbody)
    exact hl hlen.symm
  | container _ _ _ hadmits => exact hadmits (Ty.isSound_container_iff.mp h.sound).1

end Registry

/-! ## 3. The check -/

/-- **On what is covered, the check never blames the type.** -/
theorem Wire.check_schemaFree {r : Registry} (hr : r.WellFormed) (left : Nat) (ty : Ty) (v : Json)
    (path : Wire.Path) (h : r.Covers ty) : Wire.SchemaFree (Wire.check r.types left ty v path) :=
  Wire.check_blamesOnly (fun _ _ hty => hty.hands hr) (fun _ _ hty => hty.not_ownFault) left ty v
    path h

end WireContract
