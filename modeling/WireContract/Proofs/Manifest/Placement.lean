import WireContract.Proofs.Bindings.Embedding
import WireContract.Proofs.Manifest.Closed
import WireContract.Proofs.Manifest.Declared

/-!
# The placement of declarations

In which order types are declared, and in which of several manifests, decides the numbers of their
definitions and nothing else. Types that no method leads to take up numbers too. So all that can be
seen of the numbers is gone when the client code is written.

* `Registry.Carries`: the methods and the definitions of a registry under other numbers in another;
* `Carries.register`, `Carries.registerAll`: registering the same methods in both keeps that up;
* `carries_ofTypes`: the tables of two manifests, one of which has all declarations of the other;
* `merged_text_of_placement`: the client code of manifests with the same declarations in other
  places, or with more of them.
-/

namespace WireContract

variable {ρ : DefId → DefId}

/-! ## 1. Signatures -/

namespace Signature

theorem fields_rename (s : Signature) : (s.rename ρ).fields = s.fields.map (Field.rename ρ) := by
  rw [fields, rename, List.filter_map, List.map_map, fields, List.map_map]
  rfl

theorem parameters_rename (s : Signature) :
    Definition.struct (s.rename ρ).parameters = (Definition.struct s.parameters).rename ρ := by
  rw [parameters, fields_rename]
  rfl

theorem sessionTypes_rename (s : Signature) :
    (s.rename ρ).sessionTypes = s.sessionTypes.map (Ty.rename ρ) := by
  rw [sessionTypes, rename, List.filter_map, List.map_map, sessionTypes, List.map_map]
  rfl

/-- The method of a renumbered signature is its method, renumbered. -/
theorem method_rename (s : Signature) (params : DefId) :
    (s.rename ρ).method (ρ params) = (s.method params).rename ρ := by
  have hoptional : (s.rename ρ).sessionOptional = s.sessionOptional := by
    rw [sessionOptional, sessionTypes_rename, List.getLast?_map, sessionOptional]
    cases s.sessionTypes.getLast? with
    | none => rfl
    | some ty => exact ty.admitsAbsence_rename
  have hsession : (s.rename ρ).usesSession = s.usesSession := by
    rw [usesSession, sessionTypes_rename, List.isEmpty_map, usesSession]
  have hcredentials : (s.rename ρ).usesCredentials = s.usesCredentials := by
    rw [usesCredentials, rename, List.any_map, usesCredentials]
    rfl
  simp only [method, hoptional, hsession, hcredentials]
  rfl

end Signature

/-! ## 2. Registries -/

/-- One name behind the others in both tables, under numbers that go together. -/
theorem TypeTable.Carries.concat {t t' u u' : TypeTable} {name : String} (h : t.Carries ρ t')
    (hu : u.names.Nodup) (hu' : u'.names.Nodup) (hnames : u.names = t.names ++ [name])
    (hnames' : u'.names = t'.names ++ [name]) (hnext : ρ t.size = t'.size) : u.Carries ρ u' := by
  intro other id hlookup
  rw [lookup_eq_some_iff hu, hnames] at hlookup
  rw [lookup_eq_some_iff hu', hnames']
  have ht : t.names.Nodup := (List.nodup_append.mp (hnames ▸ hu)).1
  have ht' : t'.names.Nodup := (List.nodup_append.mp (hnames' ▸ hu')).1
  by_cases hid : id < t.names.length
  · rw [List.getElem?_append_left hid, ← lookup_eq_some_iff ht] at hlookup
    have hfound := (lookup_eq_some_iff ht').mp (h other id hlookup)
    have hlt := (List.getElem?_eq_some_iff.mp hfound).1
    rw [List.getElem?_append_left hlt, hfound]
  · have hlt : id < (t.names ++ [name]).length := (List.getElem?_eq_some_iff.mp hlookup).1
    rw [List.length_append, List.length_singleton] at hlt
    obtain rfl : id = t.names.length :=
      Nat.le_antisymm (Nat.le_of_lt_succ hlt) (Nat.le_of_not_lt hid)
    rw [List.getElem?_concat_length] at hlookup
    rw [length_names, hnext, ← length_names, List.getElem?_concat_length, hlookup]

/-- Methods are registered if the first is and then the others are. -/
theorem Manifest.registerAll_cons_eq_ok_iff {r q : Registry} {m : MethodDecl}
    {rest : List MethodDecl} :
    registerAll r (m :: rest) = .ok q ↔ ∃ s result, m.resolve r.types = .ok s ∧
      r.register s = .ok result ∧ registerAll result.2 rest = .ok q := by
  rw [registerAll]
  cases m.resolve r.types with
  | error fault => simp [bind, Except.bind]
  | ok s =>
    cases hs : r.register s with
    | error fault => simp [hs, ofSchema, bind, Except.bind]
    | ok result =>
      simp only [hs, ofSchema, bind, Except.bind]
      constructor
      · exact fun h => ⟨s, result, rfl, hs, h⟩
      · rintro ⟨s', result', hsame, hregister, h⟩
        obtain rfl := Except.ok.inj hsame
        obtain rfl := Except.ok.inj (hs.symm.trans hregister)
        exact h

namespace Registry

/-- Whether the second registry has the methods and the definitions of the first under other
    numbers, and the next slots follow each other in both. -/
structure Carries (ρ : DefId → DefId) (r r' : Registry) : Prop where
  built : r.types.Built
  built' : r'.types.Built
  names : r.types.Carries ρ r'.types
  next : ∀ k, ρ (r.types.size + k) = r'.types.size + k
  get : ∀ id body, r.types.get id = .ok body → r'.types.get (ρ id) = .ok (body.rename ρ)
  methods : r'.methods = r.methods.map (Method.rename ρ)

namespace Carries

variable {r r' q q' : Registry} {s : Signature} {m m' : Method}

/-- Two definitions that come to one number have one name, and are one. -/
theorem eq_of_eq (h : r.Carries ρ r') {id other : DefId} {body found : Definition}
    (hbody : r.types.get id = .ok body) (hfound : r.types.get other = .ok found)
    (heq : ρ id = ρ other) : id = other := by
  refine TypeTable.eq_of_nameOf_eq h.built.nodup_names hbody hfound ?_
  have hid := h.get id body hbody
  rw [heq, h.get other found hfound] at hid
  have hname := congrArg Definition.name (Except.ok.inj hid)
  rw [Definition.name_rename, Definition.name_rename] at hname
  rw [TypeTable.nameOf_of_get hbody, TypeTable.nameOf_of_get hfound, hname]

/-- So what can be written is embedded. -/
theorem embeds (h : r.Carries ρ r') (hr : Bindings.IsWritable r) : r.Embeds ρ r' where
  methods := h.methods
  get id _ := h.get id
  injective id other hid hother heq := by
    obtain ⟨⟨body, hbody, -⟩, -⟩ := hr.definitions id hid
    obtain ⟨⟨found, hfound, -⟩, -⟩ := hr.definitions other hother
    exact h.eq_of_eq hbody hfound heq

/-- **Registering one signature in both keeps it up.** -/
theorem register (h : r.Carries ρ r') (hq : r.register s = .ok (m, q))
    (hq' : r'.register (s.rename ρ) = .ok (m', q')) : q.Carries ρ q' := by
  obtain ⟨rfl, hmethods, hslots⟩ := register_yields r s _ hq
  obtain ⟨rfl, hmethods', hslots'⟩ := register_yields r' (s.rename ρ) _ hq'
  have hbuilt := register_built h.built s _ hq
  have hbuilt' := register_built h.built' (s.rename ρ) _ hq'
  have hsize := TypeTable.size_of_insert hslots
  have hsize' := TypeTable.size_of_insert hslots'
  have hparams : ρ r.types.size = r'.types.size := h.next 0
  have hnames := register_names r s _ hq
  have hnames' := register_names r' (s.rename ρ) _ hq'
  refine ⟨hbuilt, hbuilt', ?_, fun k => ?_, fun id body hbody => ?_, ?_⟩
  · exact h.names.concat hbuilt.nodup_names hbuilt'.nodup_names hnames hnames' hparams
  · rw [hsize, hsize', Nat.add_assoc, Nat.add_assoc]
    exact h.next (1 + k)
  · rw [TypeTable.get_insert hslots] at hbody
    by_cases hid : id = r.types.size
    · rw [if_pos hid] at hbody
      rw [hid, hparams, hbody, ← Signature.parameters_rename]
      exact TypeTable.get_insert_self hslots'
    · rw [if_neg hid] at hbody
      exact TypeTable.get_insert_of_get hslots' (h.get id body hbody)
  · rw [hmethods, hmethods', h.methods, List.map_append, List.map_singleton,
      ← Signature.method_rename, hparams]

/-- What the first accepts the second accepts, if it has no name that the first has not. -/
theorem accepts (h : r.Carries ρ r') (hnames : r'.types.names ⊆ r.types.names)
    (hs : r.Accepts s) : r'.Accepts (s.rename ρ) where
  identifier := hs.identifier
  new := by
    rw [h.methods]
    exact List.forall_mem_map.mpr hs.new
  parameters_identifier := hs.parameters_identifier
  parameters_new hmem := hs.parameters_new (hnames hmem)

/-- **So does registering the same methods.** The induction is on the methods; the names of the
    parameters are added to both tables, so that the second goes on to have no other names. -/
theorem registerAll {r r' q : Registry} (h : r.Carries ρ r') {ms : List MethodDecl}
    (hq : Manifest.registerAll r ms = .ok q) :
    (∀ q', Manifest.registerAll r' ms = .ok q' → q.Carries ρ q') ∧
      (r'.types.names ⊆ r.types.names → ∃ q', Manifest.registerAll r' ms = .ok q') := by
  induction ms generalizing r r' with
  | nil =>
    cases hq
    exact ⟨fun q' hq' => by cases hq'; exact h, fun _ => ⟨r', rfl⟩⟩
  | cons m rest ih =>
    obtain ⟨s, ⟨first, r₁⟩, hs, hregister, hrest⟩ := Manifest.registerAll_cons_eq_ok_iff.mp hq
    have hs' : m.resolve r'.types = .ok (s.rename ρ) := m.resolve_carries h.names s hs
    constructor
    · intro q' hq'
      obtain ⟨s', ⟨first', r₁'⟩, hresolved, hregister', hrest'⟩ :=
        Manifest.registerAll_cons_eq_ok_iff.mp hq'
      obtain rfl := Except.ok.inj (hs'.symm.trans hresolved)
      exact (ih (h.register hregister hregister') hrest).1 q' hrest'
    · intro hnames
      have haccepts := h.accepts hnames (register_accepts r s _ hregister)
      have hregister' := haccepts.register
      have hnames₁ := register_names r s _ hregister
      have hnames₁' := register_names r' (s.rename ρ) _ hregister'
      obtain ⟨q', hq'⟩ := (ih (h.register hregister hregister') hrest).2 (by
        rw [hnames₁, hnames₁']
        exact List.append_subset.mpr ⟨fun name hname => List.mem_append_left _ (hnames hname),
          fun name hname => List.mem_append_right _ hname⟩)
      exact ⟨q', Manifest.registerAll_cons_eq_ok_iff.mpr ⟨_, _, hs', hregister', hq'⟩⟩

end Carries

end Registry

namespace Manifest

/-! ## 3. Manifests -/

/-- The names of merged manifests are distinct. -/
theorem mergeTypes_nodup {types : Entries TypeDecl} (h : types.keys.Nodup)
    (others : List (String × TypeDecl)) :
    Yields (mergeTypes types others) fun merged => Entries.keys merged |>.Nodup := by
  induction others generalizing types with
  | nil => exact .ok h
  | cons entry rest ih =>
    obtain ⟨name, decl⟩ := entry
    unfold mergeTypes
    split
    · exact .error _
    · rename_i hnew
      have hname : name ∉ types.keys := by
        rw [← Entries.get?_eq_none_iff]
        simpa [Entries.has] using hnew
      exact ih (by
        rw [Entries.keys_append]
        exact TypeTable.nodup_concat h hname)

theorem mergeAll_nodup {m : Manifest} (h : m.types.keys.Nodup) (ms : List Manifest) :
    Yields (mergeAll m ms) fun merged => merged.types.keys.Nodup := by
  induction ms generalizing m with
  | nil => exact .ok h
  | cons next rest ih =>
    unfold mergeAll takeUp
    cases hmerged : m.merge next with
    | error name => exact .error _
    | ok merged =>
      have hnodup : Yields (m.merge next) fun merged => merged.types.keys.Nodup :=
        (mergeTypes_nodup h next.types).bind fun types htypes => .ok htypes
      exact ih (hnodup merged hmerged)

/-- The number that a definition of one manifest has in another: that of its name. What is behind
    the declared definitions goes behind those of the other. -/
def renumbering (m m' : Manifest) (id : DefId) : DefId :=
  match m.types.keys[id]? with
  | some name => m'.types.keys.idxOf name
  | none => m'.types.length + (id - m.types.length)

section Two

variable {m m' : Manifest} {t t' : TypeTable}

theorem renumbering_of_key {id : Nat} {name : String} (h : m.types.keys[id]? = some name) :
    renumbering m m' id = m'.types.keys.idxOf name := by
  rw [renumbering, h]

theorem renumbering_add (k : Nat) :
    renumbering m m' (m.types.length + k) = m'.types.length + k := by
  have hnone : m.types.keys[m.types.length + k]? = none := by
    rw [List.getElem?_eq_none_iff, Entries.keys, List.length_map]
    exact Nat.le_add_right _ _
  rw [renumbering, hnone, Nat.add_sub_cancel_left]

/-- A declaration that both manifests have is in the place of its name. -/
theorem getElem?_renumbering (hnodup : m'.types.keys.Nodup) {id : Nat} {name : String}
    {decl : TypeDecl} (h : m.types[id]? = some (name, decl)) (hmem : (name, decl) ∈ m'.types) :
    m'.types[renumbering m m' id]? = some (name, decl) := by
  have hkey : m.types.keys[id]? = some name := by
    rw [Entries.keys, List.getElem?_map, h]
    rfl
  obtain ⟨j, hj⟩ := List.mem_iff_getElem?.mp hmem
  have hkey' : m'.types.keys[j]? = some name := by
    rw [Entries.keys, List.getElem?_map, hj]
    rfl
  obtain ⟨hlt, hname⟩ := List.getElem?_eq_some_iff.mp hkey'
  have hplace : m'.types.keys.idxOf name = j := hname ▸ hnodup.idxOf_getElem j hlt
  rw [renumbering_of_key hkey, hplace, hj]

/-- The names of one table under other numbers in the other. -/
theorem carries_of_names (hnodup : m.types.keys.Nodup) (hnodup' : m'.types.keys.Nodup)
    (ht : t.names = m.types.keys) (ht' : t'.names = m'.types.keys)
    (hsub : m.types.keys ⊆ m'.types.keys) : t.Carries (renumbering m m') t' := by
  intro name id hlookup
  rw [TypeTable.lookup_eq_some_iff (ht ▸ hnodup), ht] at hlookup
  rw [TypeTable.lookup_eq_some_iff (ht' ▸ hnodup'), ht', renumbering_of_key hlookup]
  exact List.getElem?_idxOf (hsub (List.mem_of_getElem? hlookup))

theorem Defines.size_eq (h : m.Defines t) : t.size = m.types.length := by
  rw [← t.length_names, h.names, Entries.keys, List.length_map]

theorem keys_subset (h : m.types ⊆ m'.types) : m.types.keys ⊆ m'.types.keys :=
  List.map_subset _ h

/-- **The table of a manifest under other numbers is in that of any manifest** that has its
    declarations. -/
theorem carries_ofTypes (ht : m.Defines t) (ht' : m'.Defines t') (hsub : m.types ⊆ m'.types) :
    (Registry.ofTypes t).Carries (renumbering m m') (.ofTypes t') := by
  have hnodup' : m'.types.keys.Nodup := ht'.names ▸ ht'.built.nodup_names
  have hnames : t.Carries (renumbering m m') t' :=
    carries_of_names (ht.names ▸ ht.built.nodup_names) hnodup' ht.names ht'.names (keys_subset hsub)
  refine ⟨ht.built, ht'.built, hnames, fun k => ?_, fun id body hbody => ?_, rfl⟩
  · change renumbering m m' (t.size + k) = t'.size + k
    rw [ht.size_eq, ht'.size_eq]
    exact renumbering_add k
  · have hlt : id < m.types.length := ht.size_eq ▸ TypeTable.lt_size_of_get hbody
    obtain ⟨⟨name, decl⟩, hentry⟩ : ∃ entry, m.types[id]? = some entry :=
      ⟨_, List.getElem?_eq_getElem hlt⟩
    have hentry' := getElem?_renumbering hnodup' hentry (hsub (List.mem_of_getElem? hentry))
    obtain ⟨found, hresolved, hfound, -⟩ := ht.bodies id name decl hentry
    obtain ⟨found', hresolved', hfound', -⟩ := ht'.bodies _ name decl hentry'
    obtain rfl := Except.ok.inj (hfound.symm.trans hbody)
    have hsame := decl.resolve_carries hnames name found hresolved
    obtain rfl := Except.ok.inj (hresolved'.symm.trans hsame)
    exact hfound'

/-- **So a manifest with the same declarations in other places loads too.** -/
theorem exists_toRegistry_of_mem_iff {r : Registry} {options : Bindings.Options}
    (h : m.toRegistry = .ok (r, options)) (hnodup' : m'.types.keys.Nodup)
    (htypes : ∀ e, e ∈ m'.types ↔ e ∈ m.types) (hmethods : m'.methods = m.methods) :
    ∃ r', m'.toRegistry = .ok (r', m'.options.getD {}) := by
  obtain ⟨t, ht, hregistered, -⟩ := exists_defines_of_toRegistry h
  have hsub : m.types ⊆ m'.types := fun e => (htypes e).mpr
  have hsub' : m'.types ⊆ m.types := fun e => (htypes e).mp
  -- What the declarations give is read against a table that has only the names so far.
  have hreserved :
      TypeTable.names { slots := m'.types.keys.map Slot.reserved } = m'.types.keys := by
    rw [TypeTable.names, List.map_map]
    exact List.map_id _
  have hnames : t.Carries (renumbering m m') { slots := m'.types.keys.map Slot.reserved } :=
    carries_of_names (ht.names ▸ ht.built.nodup_names) hnodup' ht.names hreserved
      (keys_subset hsub)
  obtain ⟨t', ht', hload⟩ := exists_defines_of_resolves hreserved
    (fun name hname => ht.built.isIdentifier name (ht.names ▸ keys_subset hsub' hname)) hnodup'
    fun i name decl hentry => by
      obtain ⟨j, hj⟩ := List.mem_iff_getElem?.mp (hsub' (List.mem_of_getElem? hentry))
      obtain ⟨body, hbody, -, hchecked⟩ := ht.bodies j name decl hj
      exact ⟨_, decl.resolve_carries hnames name body hbody,
        (TypeTable.checkNames_rename _ body).trans hchecked⟩
  have hsubset : t'.names ⊆ t.names := by
    rw [ht'.names, ht.names]
    exact keys_subset hsub'
  obtain ⟨r', hr'⟩ := ((carries_ofTypes ht ht' hsub).registerAll hregistered).2 hsubset
  rw [hload, hmethods, hr']
  exact ⟨r', rfl⟩

/-- **What generates for a manifest generates for any manifest that has its declarations**, with the
    same text, if that loads. -/
theorem exists_generate_of_subset {r r' : Registry} {options options' settings : Bindings.Options}
    (h : m.toRegistry = .ok (r, options)) (h' : m'.toRegistry = .ok (r', options'))
    (hsub : m.types ⊆ m'.types) (hmethods : m'.methods = m.methods) {b : Bindings}
    (hb : Bindings.generate r settings = .ok b) :
    ∃ b', Bindings.generate r' settings = .ok b' ∧ b'.text settings = b.text settings := by
  obtain ⟨t, ht, hregistered, -⟩ := exists_defines_of_toRegistry h
  obtain ⟨t', ht', hregistered', -⟩ := exists_defines_of_toRegistry h'
  rw [hmethods] at hregistered'
  have hcarries := ((carries_ofTypes ht ht' hsub).registerAll hregistered).1 r' hregistered'
  have hembeds := hcarries.embeds (Bindings.isWritable_of_generate hb)
  refine ⟨_, Bindings.generate_of_embeds hembeds hb, ?_⟩
  rw [Bindings.text, Bindings.text, List.map_map]
  rfl

/-- So it generates for both or for neither, where both have the same declarations. -/
theorem generate_isOk_iff_of_mem_iff {r r' : Registry}
    {options options' settings : Bindings.Options} (h : m.toRegistry = .ok (r, options))
    (h' : m'.toRegistry = .ok (r', options')) (htypes : ∀ e, e ∈ m'.types ↔ e ∈ m.types)
    (hmethods : m'.methods = m.methods) :
    (∃ b, Bindings.generate r settings = .ok b) ↔
      ∃ b', Bindings.generate r' settings = .ok b' := by
  constructor
  · rintro ⟨b, hb⟩
    have hsub : m.types ⊆ m'.types := fun e => (htypes e).mpr
    obtain ⟨b', hb', -⟩ := exists_generate_of_subset h h' hsub hmethods hb
    exact ⟨b', hb'⟩
  · rintro ⟨b', hb'⟩
    have hsub' : m'.types ⊆ m.types := fun e => (htypes e).mp
    obtain ⟨b, hb, -⟩ := exists_generate_of_subset h' h hsub' hmethods.symm hb'
    exact ⟨b, hb⟩

/-- The options of a manifest that loads are those it asks for. -/
theorem options_of_toRegistry {r : Registry} {options : Bindings.Options}
    (h : m.toRegistry = .ok (r, options)) : options = m.options.getD {} := by
  obtain ⟨-, -, -, hoptions⟩ := exists_defines_of_toRegistry h
  exact hoptions

end Two

/-- **Where the types are declared, in which order, and how many more there are does not show in the
    client code.** Of two lists of manifests with the same methods and the same options: if they
    declare the same types, both load or neither, and both generate or neither, with the same text;
    if the second declares one more type, whose name is then new, it generates what the first does
    whenever it loads. -/
theorem merged_text_of_placement {ms ms' : List Manifest} {m m' : Manifest}
    (h : mergeAll .empty ms = .ok m) (h' : mergeAll .empty ms' = .ok m')
    (hmethods : m'.methods = m.methods) (hoptions : m'.options = m.options) :
    ((∀ entry, entry ∈ m'.types ↔ entry ∈ m.types) →
      ((∃ result, m.toRegistry = .ok result) ↔ ∃ result, m'.toRegistry = .ok result) ∧
        ∀ r options r' options', m.toRegistry = .ok (r, options) →
          m'.toRegistry = .ok (r', options') → options' = options ∧ ∀ settings,
            ((∃ b, Bindings.generate r settings = .ok b) ↔
              ∃ b', Bindings.generate r' settings = .ok b') ∧
            ∀ b b', Bindings.generate r settings = .ok b →
              Bindings.generate r' settings = .ok b' → b'.text settings = b.text settings) ∧
    ∀ name decl, (∀ entry, entry ∈ m'.types ↔ entry ∈ m.types ∨ entry = (name, decl)) →
      ∀ r options r' options', m.toRegistry = .ok (r, options) →
        m'.toRegistry = .ok (r', options') → options' = options ∧ ∀ settings b,
          Bindings.generate r settings = .ok b →
            ∃ b', Bindings.generate r' settings = .ok b' ∧ b'.text settings = b.text settings := by
  have hnodup : m.types.keys.Nodup := mergeAll_nodup (m := .empty) List.nodup_nil ms m h
  have hnodup' : m'.types.keys.Nodup := mergeAll_nodup (m := .empty) List.nodup_nil ms' m' h'
  have hsame : ∀ {r r' : Registry} {options options' : Bindings.Options},
      m.toRegistry = .ok (r, options) → m'.toRegistry = .ok (r', options') → options' = options :=
    fun hr hr' => by rw [options_of_toRegistry hr, options_of_toRegistry hr', hoptions]
  constructor
  · intro htypes
    have hsub : m.types ⊆ m'.types := fun entry => (htypes entry).mpr
    refine ⟨⟨?_, ?_⟩, fun r options r' options' hr hr' => ⟨hsame hr hr', fun settings =>
      ⟨generate_isOk_iff_of_mem_iff hr hr' htypes hmethods, fun b b' hb hb' => ?_⟩⟩⟩
    · rintro ⟨⟨r, options⟩, hr⟩
      obtain ⟨r', hr'⟩ := exists_toRegistry_of_mem_iff hr hnodup' htypes hmethods
      exact ⟨_, hr'⟩
    · rintro ⟨⟨r', options'⟩, hr'⟩
      obtain ⟨r, hr⟩ := exists_toRegistry_of_mem_iff hr' hnodup (fun entry => (htypes entry).symm)
        hmethods.symm
      exact ⟨_, hr⟩
    · obtain ⟨found, hfound, htext⟩ := exists_generate_of_subset hr hr' hsub hmethods hb
      obtain rfl := Except.ok.inj (hb'.symm.trans hfound)
      exact htext
  · intro name decl htypes r options r' options' hr hr'
    have hsub : m.types ⊆ m'.types := fun entry hentry => (htypes entry).mpr (.inl hentry)
    exact ⟨hsame hr hr', fun settings b hb => exists_generate_of_subset hr hr' hsub hmethods hb⟩

/-- A declared type that refers to boxes. -/
def crates : Manifest where
  types := [("Crate", .alias [] (.ref "Box" [.bare "number"]))]

/-- A declared type that nothing refers to. -/
def labels : Manifest where
  types := [("Label", .alias ["T"] (.optional (.bare "T")))]

/-- A method that fills a crate. -/
def filling : Manifest where
  methods := [{ name := "fill", params := [], returns := .bare "Crate" }]

theorem merged_text_of_placement_crates :
    ∃ m m' more r options r' options' b,
      mergeAll .empty [crates, filling, boxes] = .ok m ∧
        mergeAll .empty [boxes, crates, filling] = .ok m' ∧
        mergeAll .empty [labels, boxes, crates, filling] = .ok more ∧
      m.toRegistry = .ok (r, options) ∧ m'.toRegistry = .ok (r', options') ∧
        Bindings.generate r options = .ok b ∧ r'.types.lookup "Box" ≠ r.types.lookup "Box" ∧
      (∃ b', Bindings.generate r' options' = .ok b' ∧ b'.text options' = b.text options) ∧
      ∃ r'' options'', more.toRegistry = .ok (r'', options'') ∧ ∃ b'',
        Bindings.generate r'' options = .ok b'' ∧ b''.text options = b.text options := by
  obtain ⟨m, m', more, r, options, r', options', r'', options'', b, h, h', hmore, hr, hr', hr'', hb,
      hmoved, hmethods, hoptions, hmethods', hoptions', htypes, htypes'⟩ :
      ∃ m m' more r options r' options' r'' options'' b,
        mergeAll .empty [crates, filling, boxes] = .ok m ∧
        mergeAll .empty [boxes, crates, filling] = .ok m' ∧
        mergeAll .empty [labels, boxes, crates, filling] = .ok more ∧
        m.toRegistry = .ok (r, options) ∧ m'.toRegistry = .ok (r', options') ∧
        more.toRegistry = .ok (r'', options'') ∧ Bindings.generate r options = .ok b ∧
        r'.types.lookup "Box" ≠ r.types.lookup "Box" ∧
        m'.methods = m.methods ∧ m'.options = m.options ∧
        more.methods = m'.methods ∧ more.options = m'.options ∧
        (∀ entry, entry ∈ m'.types ↔ entry ∈ m.types) ∧
        ∀ entry, entry ∈ more.types ↔ entry ∈ m'.types ∨ entry = labels.types[0] :=
    ⟨_, _, _, _, _, _, _, _, _, _, rfl, rfl, rfl, rfl, rfl, rfl, rfl, by decide, rfl, rfl, rfl, rfl,
      fun entry => by simp [or_comm], fun entry => by simp [empty, labels, or_comm]⟩
  obtain ⟨-, hplaced⟩ := (merged_text_of_placement h h' hmethods hoptions).1 htypes
  obtain ⟨rfl, hgenerate⟩ := hplaced r options r' options' hr hr'
  obtain ⟨b', hb'⟩ := (hgenerate options').1.mp ⟨b, hb⟩
  have htext := (hgenerate options').2 b b' hb hb'
  obtain ⟨-, hsurplus⟩ := (merged_text_of_placement h' hmore hmethods' hoptions').2 _ _ htypes'
    r' options' r'' options'' hr' hr''
  obtain ⟨b'', hb'', htext'⟩ := hsurplus options' b' hb'
  exact ⟨m, m', more, r, options', r', options', b, h, h', hmore, hr, hr', hb, hmoved,
    ⟨b', hb', htext⟩, r'', options'', hr'', b'', hb'', htext'.trans htext⟩

end Manifest

end WireContract
