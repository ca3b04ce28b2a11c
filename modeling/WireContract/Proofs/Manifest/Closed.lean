import WireContract.Manifest.Load
import WireContract.Proofs.Manifest.Resolution
import WireContract.Proofs.Wire.Closed

/-!
# Registries of manifests are closed

All names are declared before any body is read, every declared name is then defined, and the
parameters of a method are declared and defined in one step. So nothing in a registry that comes of
a manifest leads out of its table or is left open.

* `defineAll_yields`: the definitions of a manifest fill the slots of its names;
* `IsClosed.add`: to register a method keeps a registry closed;
* `toRegistry_yields`: a manifest gives a closed registry;
* `merged_isClosed`: and what follows for the methods of several manifests.
-/

namespace WireContract

namespace Manifest

theorem ofSchema_yields {α : Type} {outcome : Except SchemaFault α} {p : α → Prop}
    (h : Yields outcome p) : Yields (ofSchema outcome) p := by
  cases outcome with
  | ok a => exact .ok (h a rfl)
  | error fault => exact .error _

/-! ## 1. Definitions -/

/-- Names that are declared one after another take the next slots. -/
theorem declareAll_yields (types : TypeTable) (names : List String) :
    Yields (declareAll types names) fun result =>
      result.1 = List.range' types.size names.length ∧
        result.2.slots = types.slots ++ names.map Slot.reserved := by
  induction names generalizing types with
  | nil => exact .ok ⟨rfl, (List.append_nil _).symm⟩
  | cons name rest ih =>
    unfold declareAll
    refine (TypeTable.declare_yields types name).bind fun declared hdeclared => ?_
    obtain ⟨id, types'⟩ := declared
    obtain ⟨rfl, hslots⟩ := hdeclared
    have hsize : types'.size = types.size + 1 := by
      rw [TypeTable.size, hslots, List.length_append, TypeTable.size, List.length_singleton]
    refine (ih types').bind fun others hothers => ?_
    obtain ⟨ids, types''⟩ := others
    obtain ⟨rfl, hslots'⟩ := hothers
    refine .ok ⟨?_, ?_⟩
    · rw [hsize, List.length_cons, List.range'_succ]
    · rw [hslots', hslots, List.append_assoc, List.map_cons]
      rfl

end Manifest

/-- A scoped body in a slot of the table keeps the table scoped. -/
theorem TypeTable.IsScoped.define {t t' : TypeTable} (h : t.IsScoped) {id : DefId}
    {body : Definition} (hid : id < t.size) (hbody : body.IsScoped t.size)
    (hslots : t'.slots = t.slots.set id (.defined body)) : t'.IsScoped := by
  intro other found hfound
  rw [get_define hid hslots] at hfound
  rw [size_of_define hslots]
  split at hfound
  · rwa [hfound]
  · exact h other found hfound

/-- So does a scoped body behind the table. -/
theorem TypeTable.IsScoped.insert {t t' : TypeTable} (h : t.IsScoped) {body : Definition}
    (hbody : body.IsScoped t.size) (hslots : t'.slots = t.slots ++ [.defined body]) :
    t'.IsScoped := by
  have hle : t.size ≤ t'.size := Nat.le.intro (size_of_insert hslots).symm
  intro other found hfound
  rw [get_insert hslots] at hfound
  split at hfound
  · rw [hfound]
    exact hbody.mono hle
  · exact (h other found hfound).mono hle

namespace Manifest

/-- Bodies that are read against the table keep it scoped, and fill what they are meant for. -/
theorem defineAll_yields {types : TypeTable} (h : types.IsScoped)
    (decls : List (DefId × String × TypeDecl)) :
    Yields (defineAll types decls) fun types' =>
      types'.size = types.size ∧ types'.IsScoped ∧
        ∀ id, (id ∈ decls.map (·.1) ∨ ∃ body, types.get id = .ok body) →
          ∃ body, types'.get id = .ok body := by
  induction decls generalizing types with
  | nil => exact .ok ⟨rfl, h, fun id hid => hid.resolve_left List.not_mem_nil⟩
  | cons entry rest ih =>
    obtain ⟨id, name, decl⟩ := entry
    unfold defineAll
    refine (decl.resolve_yields types name).bind fun body hbody => ?_
    refine (ofSchema_yields (TypeTable.define_yields types id body)).bind fun types' hdefined => ?_
    obtain ⟨hreserved, hslots⟩ := hdefined
    have hid : id < types.size := (List.getElem?_eq_some_iff.mp hreserved).1
    refine (ih (h.define hid hbody hslots)).mono fun types'' hrest => ?_
    obtain ⟨hsize, hscoped, hall⟩ := hrest
    refine ⟨hsize.trans (TypeTable.size_of_define hslots), hscoped, fun other hother => ?_⟩
    -- The slot that was just filled, one of those to come, or one that was filled before.
    refine hall other ?_
    by_cases heq : other = id
    · exact Or.inr ⟨body, (TypeTable.get_define hid hslots).mpr (by rw [if_pos heq])⟩
    · rcases hother with hmem | ⟨found, hfound⟩
      · exact Or.inl ((List.mem_cons.mp hmem).resolve_left heq)
      · exact Or.inr ⟨found, (TypeTable.get_define hid hslots).mpr (by rwa [if_neg heq])⟩

end Manifest

/-! ## 2. Methods -/

/-- The struct of the parameters is scoped if they are. -/
theorem Signature.isScoped_parameters {s : Signature} {size : Nat}
    (h : ∀ p ∈ s.params, p.ty.IsScoped size []) :
    (Definition.struct s.parameters).IsScoped size := by
  have hfields : ∀ f ∈ s.fields, f.ty.IsScoped size [] :=
    List.forall_mem_map.mpr fun p hp => h p (List.mem_filter.mp hp).1
  exact List.forall_mem_map.mpr hfields

/-- **A method behind a closed registry leaves it closed**, if its signature stays within the
    table and its parameters become the struct behind it. -/
theorem Registry.IsClosed.add {r : Registry} (hr : r.IsClosed) {s : Signature}
    (hparams : ∀ p ∈ s.params, p.ty.IsScoped r.types.size [])
    (hreturns : s.returns.IsScoped r.types.size []) {types : TypeTable}
    (hslots : types.slots = r.types.slots ++ [.defined (.struct s.parameters)]) :
    Registry.IsClosed { types, methods := r.methods ++ [s.method r.types.size] } := by
  have hsize : types.size = r.types.size + 1 := TypeTable.size_of_insert hslots
  refine ⟨fun id (hid : id < types.size) => ?_, ?_, fun m hm => ?_, fun m hm => ?_⟩
  · by_cases heq : id = r.types.size
    · exact ⟨_, heq ▸ TypeTable.get_insert_self hslots⟩
    · obtain ⟨body, hbody⟩ := hr.defined id (by omega)
      exact ⟨body, TypeTable.get_insert_of_get hslots hbody⟩
  · exact hr.bodies.insert (Signature.isScoped_parameters hparams) hslots
  · rcases List.mem_append.mp hm with hm | hm
    · obtain ⟨old, hold, hgenerics⟩ := hr.parameters m hm
      exact ⟨old, TypeTable.get_insert_of_get hslots hold, hgenerics⟩
    · obtain rfl := List.mem_singleton.mp hm
      exact ⟨s.parameters, TypeTable.get_insert_self hslots, rfl⟩
  · have hle : r.types.size ≤ types.size := by omega
    rcases List.mem_append.mp hm with hm | hm
    · exact (hr.results m hm).mono hle
    · obtain rfl := List.mem_singleton.mp hm
      exact hreturns.mono hle

theorem Registry.IsClosed.register_yields {r : Registry} (hr : r.IsClosed) {s : Signature}
    (hparams : ∀ p ∈ s.params, p.ty.IsScoped r.types.size [])
    (hreturns : s.returns.IsScoped r.types.size []) :
    Yields (r.register s) fun result => result.2.IsClosed := by
  unfold register
  split
  · exact .error _
  · split
    · exact .error _
    · split
      · exact .error _
      · rename_i params types hinsert
        obtain ⟨rfl, hslots⟩ := TypeTable.insert_yields r.types (.struct s.parameters) _ hinsert
        exact .ok (hr.add hparams hreturns hslots)

namespace Manifest

theorem registerAll_yields {r : Registry} (hr : r.IsClosed) (methods : List MethodDecl) :
    Yields (registerAll r methods) Registry.IsClosed := by
  induction methods generalizing r with
  | nil => exact .ok hr
  | cons m rest ih =>
    unfold registerAll
    refine (m.resolve_yields r.types).bind fun signature hsignature => ?_
    have hregistered := hr.register_yields hsignature.1 hsignature.2
    exact (ofSchema_yields hregistered).bind fun registered hclosed => ih hclosed

/-! ## 3. Manifests -/

/-- **A manifest gives a closed registry.** -/
theorem toRegistry_yields (m : Manifest) :
    Yields m.toRegistry fun result => result.1.IsClosed := by
  unfold toRegistry
  refine (ofSchema_yields (declareAll_yields .empty (m.types.map (·.1)))).bind fun declared h => ?_
  obtain ⟨ids, types⟩ := declared
  obtain ⟨rfl, hslots⟩ := h
  have hslots' : types.slots = (m.types.map (·.1)).map Slot.reserved := hslots
  have hsize : types.size = m.types.length := by
    rw [TypeTable.size, hslots', List.length_map, List.length_map]
  have hscoped : types.IsScoped := by
    intro id body hbody
    rw [TypeTable.get_eq_ok_iff, hslots'] at hbody
    obtain ⟨name, -, hname⟩ := List.mem_map.mp (List.mem_of_getElem? hbody)
    cases hname
  refine (defineAll_yields hscoped _).bind fun types' hdefined => ?_
  obtain ⟨hsize', hscoped', hall⟩ := hdefined
  have hclosed : (Registry.ofTypes types').IsClosed := by
    refine ⟨fun id (hid : id < types'.size) => hall id (Or.inl ?_), hscoped', ?_, ?_⟩
    · have hlength : (List.range' TypeTable.empty.size (m.types.map (·.1)).length).length =
          m.types.length := by
        rw [List.length_range', List.length_map]
      rw [List.map_fst_zip (Nat.le_of_eq hlength), List.mem_range'_1, List.length_map]
      have hstart : TypeTable.empty.size = 0 := rfl
      rw [hstart, Nat.zero_add, ← hsize, ← hsize']
      exact ⟨Nat.zero_le id, hid⟩
    · exact fun m hm => absurd hm List.not_mem_nil
    · exact fun m hm => absurd hm List.not_mem_nil
  exact (registerAll_yields hclosed m.methods).bind fun registry hregistry => .ok hregistry

/-- **The registry of several manifests is closed, and its methods never come to a type parameter.**
    Neither reading a body nor writing a result depends on what is done for type parameters; and all
    that the types can be blamed for is a reference that passes the wrong number of arguments. -/
theorem merged_isClosed {ms : List Manifest} {r : Registry} {options : Bindings.Options}
    (h : (mergeAll .empty ms >>= toRegistry) = .ok (r, options)) :
    r.IsClosed ∧ ∀ m ∈ r.methods,
      (∀ free body, m.decodeBy (Wire.checkWith r.types free Wire.depthLimit) r.types body =
        m.decode r.types body) ∧
      (∀ free result, m.encodeBy (Wire.checkWith r.types free Wire.depthLimit) result =
        m.encode r.types result) ∧
      (∀ body reason, m.decode r.types body = .error (.schema reason) →
        ∃ name expected found, reason = .genericArity name expected found) ∧
      ∀ result reason, m.encode r.types result = .error (.schema reason) →
        ∃ name expected found, reason = .genericArity name expected found := by
  have hyields : Yields (mergeAll .empty ms >>= toRegistry) fun result => result.1.IsClosed :=
    Yields.always.bind fun m _ => m.toRegistry_yields
  have hr : r.IsClosed := hyields (r, options) h
  refine ⟨hr, fun m hm => ⟨hr.decode_eq hm, hr.encode_eq hm, ?_, ?_⟩⟩
  · exact hr.decode_blames hm
  · exact hr.encode_blames hm

/-- Boxes of anything, in one manifest. -/
def boxes : Manifest where
  types := [("Box", .struct none ["T"] [{ name := "item", ty := .bare "T" }])]

/-- A method that opens a box of numbers, in another one. -/
def opening : Manifest where
  methods := [
    { name := "open"
      params := [{ name := "box", ty := .ref "Box" [.bare "number"] }]
      returns := .array (.bare "number") }]

theorem merged_isClosed_boxes :
    ∃ r options, (mergeAll .empty [boxes, opening] >>= toRegistry) = .ok (r, options) ∧
      r.types.size = 2 ∧ r.IsClosed ∧
      ∃ m ∈ r.methods, m.name = "open" ∧ ∀ free result,
        m.encodeBy (Wire.checkWith r.types free Wire.depthLimit) result =
          m.encode r.types result := by
  obtain ⟨r, options, h, hsize, hmethod⟩ : ∃ r options,
      (mergeAll .empty [boxes, opening] >>= toRegistry) = .ok (r, options) ∧ r.types.size = 2 ∧
        ∃ m ∈ r.methods, m.name = "open" :=
    ⟨_, _, rfl, rfl, _, List.mem_cons_self, rfl⟩
  obtain ⟨m, hm, hname⟩ := hmethod
  obtain ⟨hclosed, hmethods⟩ := merged_isClosed h
  exact ⟨r, options, h, hsize, hclosed, m, hm, hname, (hmethods m hm).2.1⟩

end Manifest

end WireContract
