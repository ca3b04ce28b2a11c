import WireContract.Proofs.Type.Scope
import WireContract.Proofs.Wire.Blame
import WireContract.Registry

/-!
# Closed registries

Where every slot of the table is filled, bodies stay within their own type parameters, and methods
have none, the check never comes to a type parameter: a definition is opened only with as many
arguments as it has parameters, and then arguments stand in the place of all of them.

* `Registry.IsClosed`: registries of this kind;
* `checkWith`: the check with a comparison of its own for type parameters;
* `check_eq_of_isScoped`: on closed types it makes no difference which one;
* `IsClosed.decode_eq`, `IsClosed.encode_eq`, `IsClosed.decode_blames`, `IsClosed.encode_blames`:
  what that means for a method.
-/

namespace WireContract

/-- A registry in which every slot is filled, bodies refer to slots and to their own type parameters
    only, and methods have neither type parameters nor references to anything else. All containers
    have as many elements as their kind allows. -/
structure Registry.IsClosed (r : Registry) : Prop where
  defined : ∀ id < r.types.size, ∃ body, r.types.get id = .ok body
  bodies : r.types.IsScoped
  parameters : ∀ m ∈ r.methods, ∃ s, r.types.get m.params = .ok (.struct s) ∧ s.generics = []
  results : ∀ m ∈ r.methods, m.returns.IsScoped r.types.size []

/-- Whether the reason is a reference that passes another number of arguments than its definition
    has parameters. -/
def SchemaFault.IsArity (reason : SchemaFault) : Prop :=
  ∃ name expected found, reason = .genericArity name expected found

namespace Wire

/-! ## 1. Closed types -/

section Closed

variable {r : Registry} (hr : r.IsClosed) {ty : Ty}

include hr

/-- What the check comes to from a closed type is closed. -/
theorem isScoped_of_hands {inner : Ty} (h : ty.IsScoped r.types.size [])
    (hinner : Hands r.types ty inner) : inner.IsScoped r.types.size [] := by
  cases hinner with
  | optional => exact Ty.isScoped_optional_iff.mp h
  | union _ _ hmember => exact Ty.isScoped_union_iff.mp h _ hmember
  | container _ _ _ _ helem => exact (Ty.isScoped_container_iff.mp h).2 _ helem
  | named target args body ty hb hl hty =>
    have hargs := (Ty.isScoped_named_iff.mp h).2
    exact Ty.isScoped_substitute_bind hl hargs ((hr.bodies target body hb).expressions ty hty)

/-- All that can be wrong with a closed type is the number of arguments. -/
theorem isArity_of_ownFault {reason : SchemaFault} (h : ty.IsScoped r.types.size [])
    (hfault : OwnFault r.types ty reason) : reason.IsArity := by
  cases hfault with
  | get target args _ hget =>
    obtain ⟨body, hbody⟩ := hr.defined target (Ty.isScoped_named_iff.mp h).1
    cases hget.symm.trans hbody
  | arity => exact ⟨_, _, _, rfl⟩
  | container _ _ _ hadmits => exact absurd (Ty.isScoped_container_iff.mp h).1 hadmits

end Closed

/-! ## 2. Type parameters -/

/-- The check with a comparison of its own for values where a type parameter stands. -/
def checkWith (types : TypeTable) (free : String → Json → Path → Except Fault Json) :
    Nat → Checker
  | 0, _, _, path => .error (.tooDeep path)
  | _ + 1, .generic name, v, path => free name v path
  | left + 1, ty, v, path => checkStep types (checkWith types free left) ty v path

theorem checkWith_succ {ty : Ty} (h : ∀ name, ty ≠ .generic name) (types : TypeTable)
    (free : String → Json → Path → Except Fault Json) (left : Nat) :
    checkWith types free (left + 1) ty = checkStep types (checkWith types free left) ty := by
  cases ty with
  | generic name => exact absurd rfl (h name)
  | _ => rfl

/-- The check itself takes any value there. -/
theorem checkWith_accepting (types : TypeTable) (left : Nat) :
    checkWith types (fun _ v _ => .ok v) left = check types left := by
  induction left with
  | zero => rfl
  | succ left ih =>
    funext ty
    rw [check_succ, ← ih]
    cases ty <;> rfl

/-- Whatever the check puts together of equal outcomes is equal. -/
theorem kept_eq : Kept (fun _ => True) fun _ x y => x = y where
  ok _ := rfl
  refused _ _ := rfl
  schema _ _ := rfl
  bind h hf := by rw [h, funext hf]
  next h hnext := by rw [h, hnext]

/-- **On closed types it makes no difference what is done for type parameters**: the check never
    comes to one. -/
theorem check_eq_of_isScoped {r : Registry} (hr : r.IsClosed)
    (free : String → Json → Path → Except Fault Json) (left : Nat) {ty : Ty}
    (h : ty.IsScoped r.types.size []) (v : Json) (path : Path) :
    checkWith r.types free left ty v path = check r.types left ty v path := by
  induction left generalizing ty v path with
  | zero => rfl
  | succ left ih =>
    -- A closed type is no parameter, and what it hands on is closed again.
    have hne : ∀ name, ty ≠ .generic name := by
      rintro name rfl
      exact absurd (Ty.isScoped_generic_iff.mp h) List.not_mem_nil
    rw [checkWith_succ hne, check_succ]
    refine checkStep_inStep kept_eq (fun _ _ => trivial) (fun inner hinner v path => ?_) v path
    exact ih (isScoped_of_hands hr h hinner) v path

end Wire

/-! ## 3. Methods -/

namespace Codec

/-- The arguments that a body holds, by a comparison of one's own. -/
def decodeBy (checker : Wire.Checker) (codec : Codec) (types : TypeTable) (body : List UInt8) :
    Except Wire.Fault Arguments :=
  match Json.read body with
  | .error error => .error (.notJson error)
  | .ok v =>
    match types.get codec.params with
    | .error fault => .error (.schema fault)
    | .ok (.struct s) => Wire.checkFields checker s [] v []
    | .ok other => .error (.schema (.parametersNotStruct other.name))

/-- The result as it is sent, by a comparison of one's own. -/
def encodeBy (checker : Wire.Checker) (codec : Codec) (result : Json) : Except Wire.Fault String :=
  (checker codec.returns result []).map Json.render

theorem decodeBy_check (codec : Codec) (types : TypeTable) (body : List UInt8) :
    codec.decodeBy (Wire.checkFrom types 0) types body = codec.decode types body := rfl

theorem encodeBy_check (codec : Codec) (types : TypeTable) (result : Json) :
    codec.encodeBy (Wire.checkFrom types 0) result = codec.encode types result := rfl

end Codec

namespace Registry.IsClosed

open Wire

variable {r : Registry} (hr : r.IsClosed) {m : Method} (hm : m ∈ r.methods)

include hr hm

/-- The parameters of a method are a struct without parameters of its own, and the types of its
    fields are closed. -/
theorem exists_parameters :
    ∃ s, r.types.get m.params = .ok (.struct s) ∧ s.generics.length = ([] : List Ty).length ∧
      ∀ f ∈ s.fields,
        (f.shape.1.substitute (Ty.bind s.generics [])).IsScoped r.types.size [] := by
  obtain ⟨s, hs, hgenerics⟩ := hr.parameters m hm
  have hl : s.generics.length = ([] : List Ty).length := by rw [hgenerics]; rfl
  refine ⟨s, hs, hl, fun f hf => ?_⟩
  have hshape : f.shape.1.IsScoped r.types.size s.generics :=
    (hr.bodies _ _ hs).expressions _ (List.mem_map_of_mem hf)
  exact Ty.isScoped_substitute_bind hl (fun arg harg => absurd harg List.not_mem_nil) hshape

/-- To read a body never comes to a type parameter. -/
theorem decode_eq (free : String → Json → Path → Except Fault Json) (body : List UInt8) :
    m.decodeBy (checkWith r.types free depthLimit) r.types body = m.decode r.types body := by
  obtain ⟨s, hs, -, hfields⟩ := hr.exists_parameters hm
  rw [← Codec.decodeBy_check, Codec.decodeBy, Codec.decodeBy]
  split
  · rfl
  · rw [hs]
    refine checkFields_inStep kept_eq rfl (fun _ => trivial) (fun _ f hf v path => ?_) _ []
    exact check_eq_of_isScoped hr free _ (hfields f hf) v path

/-- To write a result never comes to a type parameter. -/
theorem encode_eq (free : String → Json → Path → Except Fault Json) (result : Json) :
    m.encodeBy (checkWith r.types free depthLimit) result = m.encode r.types result := by
  rw [← Codec.encodeBy_check, Codec.encodeBy, Codec.encodeBy,
    check_eq_of_isScoped hr free _ (hr.results m hm)]
  rfl

/-- To read a body blames the types for a number of arguments only. -/
theorem decode_blames (body : List UInt8) :
    BlamesOnly SchemaFault.IsArity (m.decode r.types body) := by
  obtain ⟨s, hs, hl, hfields⟩ := hr.exists_parameters hm
  rw [Codec.decode]
  split
  · exact .error fun reason heq => by cases heq
  · rw [Codec.arguments, hs]
    refine checkFields_blamesOnly (fun hne => absurd hl hne) (fun _ f hf v path => ?_) _ []
    exact check_blamesOnly (fun _ _ => isScoped_of_hands hr) (fun _ _ => isArity_of_ownFault hr) _ _
      v path (hfields f hf)

/-- To write a result blames the types for a number of arguments only. -/
theorem encode_blames (result : Json) :
    BlamesOnly SchemaFault.IsArity (m.encode r.types result) :=
  BlamesOnly.map Json.render <| check_blamesOnly (fun _ _ => isScoped_of_hands hr)
    (fun _ _ => isArity_of_ownFault hr) _ _ result [] (hr.results m hm)

end Registry.IsClosed

end WireContract
