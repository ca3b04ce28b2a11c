import WireContract.Proofs.Type.Naming
import WireContract.Registry

/-!
# Registering a method

What a call that registers a method leaves behind: one slot more, with the struct of the parameters
in it, and one method more, which refers to that slot.

* `register_yields`: the table and the methods after a call that succeeds;
* `Accepts`: when it does; `Accepts.register`, `register_accepts`: then and only then;
* `register_built`: the table stays one that is filled by the ways to write to it;
* `register_identifiers`: and the names of the methods stay identifiers.
-/

namespace WireContract

namespace TypeTable

variable {t : TypeTable} {body : Definition}

theorem declare_eq_ok {name : String} (hident : Text.isIdentifier name = true)
    (hnew : name ∉ t.names) :
    t.declare name = .ok (t.size, { slots := t.slots ++ [.reserved name] }) := by
  have hlookup : ¬ (t.lookup name).isSome = true := fun h => hnew (isSome_lookup_iff.mp h)
  rw [declare, if_neg (by simp [hident]), if_neg hlookup]

theorem define_eq_ok {id : DefId} (hnames : checkNames body = .ok ())
    (hslot : t.slots[id]? = some (.reserved body.name)) :
    t.define id body = .ok { slots := t.slots.set id (.defined body) } := by
  simp [define, hnames, hslot, bind, Except.bind, pure, Except.pure]

/-- A definition with a new name, all names of which are identifiers, can be inserted. -/
theorem insert_eq_ok (hnames : checkNames body = .ok ())
    (hident : Text.isIdentifier body.name = true) (hnew : body.name ∉ t.names) :
    t.insert body = .ok (t.size, { slots := t.slots ++ [.defined body] }) := by
  have hslot : (t.slots ++ [Slot.reserved body.name])[t.size]? = some (.reserved body.name) :=
    List.getElem?_concat_length
  have hset : (t.slots ++ [Slot.reserved body.name]).set t.size (.defined body) =
      t.slots ++ [.defined body] := by
    rw [size, List.set_append_right _ _ (Nat.le_refl _), Nat.sub_self]
    rfl
  have hdefined := define_eq_ok (t := ⟨t.slots ++ [.reserved body.name]⟩) hnames hslot
  simp [insert, hnames, declare_eq_ok hident hnew, hdefined, hset, bind, Except.bind, pure,
    Except.pure]

end TypeTable

namespace Registry

variable {r : Registry}

/-- The parameters take the next slot, and the method stands behind the others. -/
theorem register_yields (r : Registry) (s : Signature) :
    Yields (r.register s) fun result =>
      result.1 = s.method r.types.size ∧ result.2.methods = r.methods ++ [result.1] ∧
        result.2.types.slots = r.types.slots ++ [.defined (.struct s.parameters)] := by
  unfold register
  split
  · exact .error _
  · split
    · exact .error _
    · split
      · exact .error _
      · rename_i params types hinsert
        obtain ⟨rfl, hslots⟩ := TypeTable.insert_yields r.types (.struct s.parameters) _ hinsert
        exact .ok ⟨rfl, rfl, hslots⟩

/-- The name of the parameters goes to the end. -/
theorem register_names (r : Registry) (s : Signature) :
    Yields (r.register s) fun result =>
      result.2.types.names = r.types.names ++ [parametersTypeName s.name] :=
  (register_yields r s).mono fun result h => by
    rw [TypeTable.names, h.2.2, List.map_append]
    rfl

/-- What registration asks for: a method of a new name, and a new name for its parameters. -/
structure Accepts (r : Registry) (s : Signature) : Prop where
  identifier : Text.isIdentifier s.name = true
  new : ∀ m ∈ r.methods, m.name ≠ s.name
  parameters_identifier : Text.isIdentifier (parametersTypeName s.name) = true
  parameters_new : parametersTypeName s.name ∉ r.types.names

theorem method?_eq_none_iff {name : String} :
    r.method? name = none ↔ ∀ m ∈ r.methods, m.name ≠ name := by
  simp [method?]

/-- **What is accepted is registered.** -/
theorem Accepts.register {s : Signature} (h : r.Accepts s) :
    r.register s = .ok (s.method r.types.size,
      { types := { slots := r.types.slots ++ [.defined (.struct s.parameters)] }
        methods := r.methods ++ [s.method r.types.size] }) := by
  have hmethod : r.method? s.name = none := method?_eq_none_iff.mpr h.new
  have hinsert : r.types.insert (.struct s.parameters) =
      .ok (r.types.size, { slots := r.types.slots ++ [.defined (.struct s.parameters)] }) :=
    TypeTable.insert_eq_ok rfl h.parameters_identifier h.parameters_new
  simp [Registry.register, h.identifier, hmethod, hinsert]

/-- **Nothing else is.** -/
theorem register_accepts (r : Registry) (s : Signature) :
    Yields (r.register s) fun _ => r.Accepts s := by
  unfold register
  split
  · exact .error _
  · rename_i hident
    split
    · exact .error _
    · rename_i hmethod
      split
      · exact .error _
      · rename_i params types hinsert
        obtain ⟨hpident, hpnew, -⟩ :=
          TypeTable.insert_names r.types (.struct s.parameters) _ hinsert
        have hmethod : r.method? s.name = none := by simpa using hmethod
        exact .ok ⟨by simpa using hident, method?_eq_none_iff.mp hmethod, hpident, hpnew⟩

theorem register_built (h : r.types.Built) (s : Signature) :
    Yields (r.register s) fun result => result.2.types.Built := by
  unfold register
  split
  · exact .error _
  · split
    · exact .error _
    · split
      · exact .error _
      · rename_i params types hinsert
        exact .ok (.insert _ _ _ _ h hinsert)

theorem register_identifiers (h : ∀ m ∈ r.methods, Text.isIdentifier m.name = true)
    (s : Signature) :
    Yields (r.register s) fun result =>
      ∀ m ∈ result.2.methods, Text.isIdentifier m.name = true := by
  intro result hresult
  obtain ⟨hmethod, hmethods, -⟩ := register_yields r s result hresult
  rw [hmethods, hmethod]
  exact List.forall_mem_append.mpr ⟨h, List.forall_mem_singleton.mpr
    (register_accepts r s result hresult).identifier⟩

end Registry

end WireContract
