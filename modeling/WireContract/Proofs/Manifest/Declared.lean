import WireContract.Proofs.Manifest.Closed
import WireContract.Proofs.Manifest.Renumbering
import WireContract.Proofs.Registration

/-!
# The definitions of a manifest

When a manifest is loaded, its names take the slots in order and its declarations fill them. What a
declaration gives depends on the names alone, and these do not change while the slots are filled. So
the order in which the declarations are read has no say in whether they can be, nor in what they
give.

* `declareAll_isOk`, `defineAll_isOk`: when names can be declared and declarations be read;
* `defineAll_bodies`: what is found in the slots then;
* `Manifest.Defines`: the table that a manifest leads to;
* `exists_defines_of_toRegistry`, `exists_defines_of_resolves`: loading is to come to that table and
  to register the methods over it.
-/

namespace WireContract

namespace TypeTable

variable {t t' : TypeTable} {body : Definition}

theorem carries_id (h : t'.names = t.names) : t.Carries id t' :=
  fun name _ hlookup => (lookup_congr h name).trans hlookup

/-- The names of a definition are those of any renumbering of it. -/
theorem checkNames_rename (ρ : DefId → DefId) (body : Definition) :
    checkNames (body.rename ρ) = checkNames body := by
  have hnames : (body.rename ρ).bareNames = body.bareNames := by cases body <;> rfl
  rw [checkNames, hnames, checkNames]

end TypeTable

/-- A declaration gives a definition of the name in front of it. -/
theorem TypeDecl.resolve_name (t : TypeTable) (name : String) (decl : TypeDecl) :
    Yields (decl.resolve t name) fun body => body.name = name := by
  cases decl with
  | struct doc generics fields => exact Yields.always.bind fun _ _ => .ok rfl
  | enumeration doc members => exact .ok rfl
  | «alias» generics ty => exact Yields.always.bind fun _ _ => .ok rfl

/-- What a declaration gives depends on the names of the table alone. -/
theorem TypeDecl.resolve_of_names {t t' : TypeTable} (h : t'.names = t.names) {name : String}
    {decl : TypeDecl} {body : Definition} (hbody : decl.resolve t name = .ok body) :
    decl.resolve t' name = .ok body := by
  have hsame : decl.resolve t' name = .ok (body.rename id) :=
    decl.resolve_carries (TypeTable.carries_id h) name body hbody
  rwa [Definition.rename_id] at hsame

namespace Manifest

/-! ## 1. Declaring -/

theorem declareAll_names (types : TypeTable) (names : List String) :
    Yields (declareAll types names) fun result => result.2.names = types.names ++ names := by
  refine (declareAll_yields types names).mono fun result h => ?_
  have hreserved : (names.map Slot.reserved).map Slot.name = names := by
    rw [List.map_map]
    exact List.map_id _
  rw [TypeTable.names, h.2, List.map_append, hreserved]
  rfl

/-- Identifiers that are new and distinct can be declared. -/
theorem declareAll_isOk {types : TypeTable} {names : List String}
    (hident : ∀ name ∈ names, Text.isIdentifier name = true) (hnodup : names.Nodup)
    (hnew : ∀ name ∈ names, name ∉ types.names) :
    ∃ result, declareAll types names = .ok result := by
  induction names generalizing types with
  | nil => exact ⟨_, rfl⟩
  | cons name rest ih =>
    rw [List.forall_mem_cons] at hident hnew
    rw [List.nodup_cons] at hnodup
    have hdeclared := TypeTable.declare_eq_ok hident.1 hnew.1
    have hnames := (TypeTable.declare_names types name _ hdeclared).2.2
    obtain ⟨others, hothers⟩ := ih hident.2 hnodup.2 fun other hother => by
      rw [hnames, List.mem_append, not_or]
      exact ⟨hnew.2 other hother, by
        rw [List.mem_singleton]
        exact ne_of_mem_of_not_mem hother hnodup.1⟩
    simp [declareAll, hdeclared, hothers, bind, Except.bind, pure, Except.pure]

theorem declareAll_built {types : TypeTable} (h : types.Built) (names : List String) :
    Yields (declareAll types names) fun result => result.2.Built := by
  induction names generalizing types with
  | nil => exact .ok h
  | cons name rest ih =>
    unfold declareAll
    have hdeclared : Yields (types.declare name) fun result => result.2.Built :=
      fun result hresult => .declare types name result.1 result.2 h hresult
    exact hdeclared.bind fun declared hbuilt => (ih hbuilt).bind fun others hothers => .ok hothers

/-! ## 2. Defining -/

theorem defineAll_built {types : TypeTable} (h : types.Built)
    (decls : List (DefId × String × TypeDecl)) :
    Yields (defineAll types decls) TypeTable.Built := by
  induction decls generalizing types with
  | nil => exact .ok h
  | cons entry rest ih =>
    obtain ⟨id, name, decl⟩ := entry
    unfold defineAll
    refine Yields.always.bind fun body _ => ?_
    have hdefined : Yields (types.define id body) TypeTable.Built := fun types' hdefine =>
      .define types id body types' h hdefine
    exact (ofSchema_yields hdefined).bind fun types' hbuilt => ih hbuilt

/-- What is defined stays. -/
theorem defineAll_keeps (types : TypeTable) (decls : List (DefId × String × TypeDecl)) :
    Yields (defineAll types decls) fun types' =>
      types'.names = types.names ∧
        ∀ id body, types.get id = .ok body → types'.get id = .ok body := by
  induction decls generalizing types with
  | nil => exact .ok ⟨rfl, fun _ _ => id⟩
  | cons entry rest ih =>
    obtain ⟨id, name, decl⟩ := entry
    unfold defineAll
    refine Yields.always.bind fun body _ => ?_
    have hdefined := ofSchema_yields fun types' h =>
      And.intro (TypeTable.define_yields types id body types' h)
        (TypeTable.define_names types id body types' h)
    refine hdefined.bind fun types' h => (ih types').mono fun types'' hrest => ?_
    obtain ⟨⟨hslot, hslots⟩, hnames⟩ := h
    refine ⟨hrest.1.trans hnames, fun other found hfound => hrest.2 other found ?_⟩
    have hid : id < types.size := (List.getElem?_eq_some_iff.mp hslot).1
    -- A slot that is filled is not the one that was reserved until now.
    have hne : other ≠ id := by
      rintro rfl
      rw [TypeTable.get_eq_ok_iff, hslot] at hfound
      cases hfound
    exact (TypeTable.get_define hid hslots).mpr (by rwa [if_neg hne])

/-- **Every declaration is found in its slot**, as it is read against the names. -/
theorem defineAll_bodies (types : TypeTable) (decls : List (DefId × String × TypeDecl)) :
    Yields (defineAll types decls) fun types' => ∀ entry ∈ decls, ∃ body,
      entry.2.2.resolve types entry.2.1 = .ok body ∧ types'.get entry.1 = .ok body ∧
        TypeTable.checkNames body = .ok () := by
  induction decls generalizing types with
  | nil => exact .ok fun entry hentry => absurd hentry List.not_mem_nil
  | cons entry rest ih =>
    obtain ⟨id, name, decl⟩ := entry
    unfold defineAll
    have hresolved : Yields (decl.resolve types name) fun body =>
        decl.resolve types name = .ok body := fun _ h => h
    refine hresolved.bind fun body hbody => ?_
    have hdefined := ofSchema_yields fun types' h =>
      And.intro (TypeTable.define_yields types id body types' h)
        (And.intro (TypeTable.define_names types id body types' h)
          (TypeTable.define_checks types id body types' h))
    refine hdefined.bind fun types' h types'' htypes => ?_
    obtain ⟨⟨hslot, hslots⟩, hnames, hchecked⟩ := h
    have hid : id < types.size := (List.getElem?_eq_some_iff.mp hslot).1
    have hfound : types'.get id = .ok body :=
      (TypeTable.get_define hid hslots).mpr (by rw [if_pos rfl])
    refine List.forall_mem_cons.mpr ⟨⟨body, hbody, ?_, hchecked⟩, fun entry hentry => ?_⟩
    · exact (defineAll_keeps types' rest types'' htypes).2 id body hfound
    · obtain ⟨other, hother, hrest⟩ := ih types' types'' htypes entry hentry
      exact ⟨other, TypeDecl.resolve_of_names hnames.symm hother, hrest⟩

/-- **Declarations that can be read and named can all be filled in**, each in the slot that is
    reserved for its name. -/
theorem defineAll_isOk {types : TypeTable} {decls : List (DefId × String × TypeDecl)}
    (hslots : ∀ entry ∈ decls, types.slots[entry.1]? = some (.reserved entry.2.1))
    (hnodup : (decls.map (·.1)).Nodup)
    (hbodies : ∀ entry ∈ decls, ∃ body, entry.2.2.resolve types entry.2.1 = .ok body ∧
      TypeTable.checkNames body = .ok ()) : ∃ types', defineAll types decls = .ok types' := by
  induction decls generalizing types with
  | nil => exact ⟨_, rfl⟩
  | cons entry rest ih =>
    obtain ⟨id, name, decl⟩ := entry
    rw [List.forall_mem_cons] at hslots hbodies
    rw [List.map_cons, List.nodup_cons] at hnodup
    obtain ⟨body, hbody, hchecked⟩ := hbodies.1
    have hname : body.name = name := decl.resolve_name types name body hbody
    have hdefined := TypeTable.define_eq_ok hchecked (hname ▸ hslots.1)
    have hnames := TypeTable.define_names types id body _ hdefined
    have hrest : ∀ other ∈ rest, (types.slots.set id (.defined body))[other.1]? =
        some (.reserved other.2.1) := by
      intro other hother
      have hne : id ≠ other.1 := fun heq =>
        hnodup.1 (List.mem_map.mpr ⟨other, hother, heq.symm⟩)
      exact (List.getElem?_set_ne hne).trans (hslots.2 other hother)
    obtain ⟨types', htypes⟩ := ih hrest hnodup.2 fun other hother => by
      obtain ⟨found, hfound, hchecked⟩ := hbodies.2 other hother
      exact ⟨found, TypeDecl.resolve_of_names hnames hfound, hchecked⟩
    refine ⟨types', ?_⟩
    simp only [defineAll, hbody, hdefined, ofSchema, bind, Except.bind]
    exact htypes

/-! ## 3. The table of a manifest -/

theorem registerAll_built {r : Registry} (h : r.types.Built) (methods : List MethodDecl) :
    Yields (registerAll r methods) fun r' => r'.types.Built := by
  induction methods generalizing r with
  | nil => exact .ok h
  | cons m rest ih =>
    unfold registerAll
    refine Yields.always.bind fun signature _ => ?_
    exact (ofSchema_yields (Registry.register_built h signature)).bind
      fun registered hbuilt => ih hbuilt

/-- **The table of a manifest comes about by the ways to write to it.** -/
theorem toRegistry_built (m : Manifest) :
    Yields m.toRegistry fun result => result.1.types.Built := by
  unfold toRegistry
  refine (ofSchema_yields (declareAll_built .empty _)).bind fun declared hdeclared => ?_
  refine (defineAll_built hdeclared _).bind fun types hdefined => ?_
  have hregistered := registerAll_built (r := .ofTypes types) hdefined m.methods
  exact hregistered.bind fun registry hregistry => .ok hregistry

/-- Whether a table is the one that a manifest leads to before its methods are registered: it has
    the declared names, in order, and behind each of them what the declaration gives. -/
structure Defines (m : Manifest) (t : TypeTable) : Prop where
  built : t.Built
  names : t.names = m.types.keys
  bodies : ∀ (i : Nat) name decl, m.types[i]? = some (name, decl) → ∃ body,
    decl.resolve t name = .ok body ∧ t.get i = .ok body ∧ TypeTable.checkNames body = .ok ()

/-- The numbers that names are given when they are declared, with the declarations. -/
theorem mem_numbered_iff {types : Entries TypeDecl} {i : Nat} {name : String} {decl : TypeDecl} :
    (i, name, decl) ∈ (List.range' 0 types.length).zip types ↔ types[i]? = some (name, decl) := by
  rw [← List.range_eq_range', List.mem_iff_getElem?]
  constructor
  · intro h
    obtain ⟨j, hj⟩ := h
    rw [List.getElem?_zip_eq_some] at hj
    obtain ⟨hrange, hentry⟩ := hj
    obtain ⟨hlt, hij⟩ := List.getElem?_eq_some_iff.mp hrange
    have hij : j = i := by rwa [List.getElem_range] at hij
    exact hij ▸ hentry
  · intro h
    refine ⟨i, List.getElem?_zip_eq_some.mpr ⟨?_, h⟩⟩
    exact List.getElem?_range (List.getElem?_eq_some_iff.mp h).1

/-- What declaring the names and then defining them leads to. -/
theorem defines_of_defineAll {m : Manifest} {ids : List DefId} {t₀ t : TypeTable}
    (hdeclared : declareAll .empty m.types.keys = .ok (ids, t₀))
    (hdefined : defineAll t₀ (ids.zip m.types) = .ok t) : m.Defines t := by
  obtain ⟨hids, -⟩ := declareAll_yields .empty _ _ hdeclared
  have hnames := declareAll_names .empty _ _ hdeclared
  have hkept := (defineAll_keeps _ _ t hdefined).1
  refine ⟨defineAll_built (declareAll_built .empty _ _ hdeclared) _ t hdefined,
    hkept.trans hnames, fun i name decl hentry => ?_⟩
  have hmem : (i, name, decl) ∈ ids.zip m.types := by
    obtain rfl : ids = List.range' 0 m.types.length := by rw [← List.length_map]; exact hids
    exact mem_numbered_iff.mpr hentry
  obtain ⟨body, hbody, hfound⟩ := defineAll_bodies _ _ t hdefined _ hmem
  exact ⟨body, TypeDecl.resolve_of_names hkept hbody, hfound⟩

/-- **To load a manifest is to come to its table and to register its methods over it.** -/
theorem exists_defines_of_toRegistry {m : Manifest} {r : Registry} {options : Bindings.Options}
    (h : m.toRegistry = .ok (r, options)) :
    ∃ t, m.Defines t ∧ registerAll (.ofTypes t) m.methods = .ok r ∧
      options = m.options.getD {} := by
  have hself : ∀ {α : Type} (outcome : Except Fault α), Yields outcome fun a => outcome = .ok a :=
    fun _ _ h => h
  have hyields : Yields m.toRegistry fun result => ∃ t, m.Defines t ∧
      registerAll (.ofTypes t) m.methods = .ok result.1 ∧ result.2 = m.options.getD {} := by
    unfold toRegistry
    refine (ofSchema_yields fun declared h => h).bind fun declared hdeclared => ?_
    refine (hself _).bind fun t hdefined => (hself _).bind fun r hregistered => .ok ?_
    exact ⟨t, defines_of_defineAll hdeclared hdefined, hregistered, rfl⟩
  exact hyields _ h

/-- **A manifest whose declarations can be read loads as far as its methods can be registered.** -/
theorem exists_defines_of_resolves {m : Manifest} {t₀ : TypeTable} (ht₀ : t₀.names = m.types.keys)
    (hident : ∀ name ∈ m.types.keys, Text.isIdentifier name = true) (hnodup : m.types.keys.Nodup)
    (hbodies : ∀ (i : Nat) name (decl : TypeDecl), m.types[i]? = some (name, decl) → ∃ body,
      decl.resolve t₀ name = .ok body ∧ TypeTable.checkNames body = .ok ()) :
    ∃ t, m.Defines t ∧ m.toRegistry =
      (registerAll (.ofTypes t) m.methods).map fun r => (r, m.options.getD {}) := by
  have hnew : ∀ name ∈ m.types.keys, name ∉ TypeTable.empty.names := fun _ _ => List.not_mem_nil
  obtain ⟨⟨ids, t⟩, hdeclared⟩ := declareAll_isOk hident hnodup hnew
  obtain ⟨hids, hslots⟩ := declareAll_yields .empty _ _ hdeclared
  have hnames : t.names = m.types.keys := declareAll_names .empty _ _ hdeclared
  obtain rfl : ids = List.range' 0 m.types.length := by rw [← List.length_map]; exact hids
  have hzip : ((List.range' 0 m.types.length).zip m.types).map (·.1) =
      List.range' 0 m.types.length := List.map_fst_zip (Nat.le_of_eq List.length_range')
  obtain ⟨t', hdefined⟩ : ∃ t', defineAll t ((List.range' 0 m.types.length).zip m.types) =
      .ok t' := by
    refine defineAll_isOk ?_ (by rw [hzip]; exact List.nodup_range') ?_
    · rintro ⟨i, name, decl⟩ hentry
      have hkey : m.types.keys[i]? = some name := by
        rw [Entries.keys, List.getElem?_map, mem_numbered_iff.mp hentry]
        rfl
      have hslots : t.slots = m.types.keys.map Slot.reserved := hslots
      rw [hslots, List.getElem?_map, hkey]
      rfl
    · rintro ⟨i, name, decl⟩ hentry
      obtain ⟨body, hbody, hchecked⟩ := hbodies i name decl (mem_numbered_iff.mp hentry)
      exact ⟨body, TypeDecl.resolve_of_names (hnames.trans ht₀.symm) hbody, hchecked⟩
  refine ⟨t', defines_of_defineAll hdeclared hdefined, ?_⟩
  have hdeclared : declareAll .empty (m.types.map (·.1)) = .ok (_, t) := hdeclared
  simp only [toRegistry, hdeclared, ofSchema, hdefined, bind, Except.bind, pure, Except.pure]
  cases registerAll (.ofTypes t') m.methods <;> rfl

end Manifest

end WireContract
