import WireContract.Proofs.Bindings.Waves
import WireContract.Proofs.Type.Expressions
import WireContract.Registry

/-!
# What a registry reaches

The expressions of a registry are those that client code for it is written with: the parameters
and the result of every method, and the expressions of every definition that these lead to. What
they mention is what the registry reaches; its other definitions play no part.

* `Registry.Reaches`: the definitions that the methods lead to;
* `Registry.Expresses`: the expressions of the methods and of these definitions;
* `reaches_iff_expresses`: reached is exactly what one of these expressions mentions;
* `Registry.wave`: the definitions in the order of discovery, wave by wave.
-/

namespace WireContract

/-- The expressions of a method's wrapper: its parameters, which are a reference without
    arguments, and its result. -/
def Method.expressions (m : Method) : List Ty := [.reference m.params, m.returns]

/-- The definitions that a method's wrapper refers to, in the order of writing. -/
def Method.mentions (m : Method) : List DefId := m.params :: m.returns.mentions

theorem Method.mentions_eq_flatMap (m : Method) :
    m.mentions = m.expressions.flatMap Ty.mentions := by
  simp [mentions, expressions, Ty.reference]

namespace Registry

/-- The definitions that the methods refer to, method by method. -/
def mentions (r : Registry) : List DefId := r.methods.flatMap Method.mentions

/-- Whether a definition is one that the methods lead to. -/
def Reaches (r : Registry) (id : DefId) : Prop :=
  Bindings.Reached r.mentions r.types.mentionsOf id

/-- The definitions that are found in so many steps and not in fewer, in order of discovery. -/
def wave (r : Registry) (k : Nat) : List DefId :=
  Bindings.wave r.mentions r.types.mentionsOf k

/-- Whether an expression is one that client code is written with: of a method, or of a definition
    that the methods lead to. -/
def Expresses (r : Registry) (ty : Ty) : Prop :=
  (∃ m ∈ r.methods, ty ∈ m.expressions) ∨
    ∃ id body, r.Reaches id ∧ r.types.get id = .ok body ∧ ty ∈ body.expressions

section Expressions

variable {r : Registry} {id : DefId}

theorem reaches_of_method {m : Method} (hm : m ∈ r.methods) (h : id ∈ m.mentions) :
    r.Reaches id :=
  .start id (List.mem_flatMap_of_mem hm h)

theorem reaches_of_definition {target : DefId} {body : Definition} (ht : r.Reaches target)
    (hb : r.types.get target = .ok body) (h : id ∈ body.mentions) : r.Reaches id :=
  .next target id ht (by rwa [TypeTable.mentionsOf_of_get hb])

theorem expresses_of_definition {body : Definition} {ty : Ty} (h : r.Reaches id)
    (hb : r.types.get id = .ok body) (hty : ty ∈ body.expressions) : r.Expresses ty :=
  Or.inr ⟨id, body, h, hb, hty⟩

theorem reaches_of_expresses {ty : Ty} (hty : r.Expresses ty) (h : id ∈ ty.mentions) :
    r.Reaches id := by
  rcases hty with ⟨m, hm, hty⟩ | ⟨target, body, ht, hb, hty⟩
  · refine reaches_of_method hm ?_
    rw [m.mentions_eq_flatMap]
    exact List.mem_flatMap_of_mem hty h
  · exact reaches_of_definition ht hb (List.mem_flatMap_of_mem hty h)

/-- **Reached is exactly what an expression of the registry mentions.** -/
theorem reaches_iff_expresses : r.Reaches id ↔ ∃ ty, r.Expresses ty ∧ id ∈ ty.mentions := by
  constructor
  · intro h
    cases h with
    | start _ h =>
      obtain ⟨m, hm, hid⟩ := List.mem_flatMap.mp h
      rw [m.mentions_eq_flatMap] at hid
      obtain ⟨ty, hty, hid⟩ := List.mem_flatMap.mp hid
      exact ⟨ty, Or.inl ⟨m, hm, hty⟩, hid⟩
    | next target _ ht h =>
      cases hb : r.types.get target with
      | error fault =>
        rw [TypeTable.mentionsOf, hb] at h
        exact absurd h List.not_mem_nil
      | ok body =>
        rw [TypeTable.mentionsOf_of_get hb] at h
        obtain ⟨ty, hty, hid⟩ := List.mem_flatMap.mp h
        exact ⟨ty, expresses_of_definition ht hb hty, hid⟩
  · intro h
    rcases h with ⟨ty, hty, hid⟩
    exact reaches_of_expresses hty hid

end Expressions

end Registry

end WireContract
