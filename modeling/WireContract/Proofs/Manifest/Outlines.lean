import WireContract.Proofs.Bindings.Outlines
import WireContract.Proofs.Manifest.Layout
import WireContract.Proofs.Manifest.Placement
import WireContract.Proofs.Manifest.Reading

/-!
# The members of what is declared

What the client code declares lists the members and the type parameters that the manifests list, one
for one. So the members of an enumeration are distinct, as they are read into a table. Fields,
parameters and type parameters are read into lists, and nobody looks for repetitions in these: what
is declared in the client code lists something twice exactly if its declaration in the manifests
does.

* `TypeDecl.outline`, `MethodDecl.outline`, `Manifest.outlines`: what a manifest declares;
* `toRegistry_outlines`: what is in the slots of its registry;
* `declares_of_toRegistry`: what is in its client code;
* `members_listed_once_iff`: when everything in there is listed once.
-/

namespace WireContract

open Bindings (Outline outline)

/-! ## 1. What a manifest declares -/

/-- What a declaration introduces under a name. -/
def TypeDecl.outline (name : String) : TypeDecl → Outline
  | .struct _ generics fields => ⟨"interface", name, generics, fields.map (·.name)⟩
  | .enumeration _ members => ⟨"enum", name, [], members.keys⟩
  | .alias generics _ => ⟨"type", name, generics, []⟩

/-- What a method introduces: the interface of the parameters that the server does not supply. -/
def MethodDecl.outline (m : MethodDecl) : Outline where
  keyword := "interface"
  name := parametersTypeName m.name
  generics := []
  members := (m.params.map (·.name)).filter fun name =>
    !(name == sessionParameter || name == credentialsParameter)

/-- What the types and the methods of a manifest introduce, in order. -/
def Manifest.outlines (m : Manifest) : List Outline :=
  m.types.map (fun e => e.2.outline e.1) ++ m.methods.map MethodDecl.outline

/-- A declaration gives a definition that introduces the same. -/
theorem TypeDecl.resolve_outline (t : TypeTable) (name : String) (decl : TypeDecl) :
    Yields (decl.resolve t name) fun body => body.outline = decl.outline name := by
  cases decl with
  | struct doc generics fields =>
    have hfield : ∀ f ∈ fields,
        Yields (FieldDecl.resolve t name generics f) fun field => field.name = f.name :=
      fun _ _ => Yields.always.bind fun _ _ => .ok rfl
    refine (Yields.mapM_map hfield).bind fun resolved hresolved => .ok ?_
    rw [TypeDecl.outline, ← hresolved]
    rfl
  | enumeration doc members =>
    refine .ok ?_
    rw [Definition.outline, Definition.memberNames, List.map_map]
    rfl
  | «alias» generics ty => exact Yields.always.bind fun _ _ => .ok rfl

/-- So does a method, for the struct of its parameters. -/
theorem MethodDecl.resolve_outline (t : TypeTable) (m : MethodDecl) :
    Yields (m.resolve t) fun s => (Definition.struct s.parameters).outline = m.outline := by
  have hparam : ∀ p ∈ m.params, Yields (ParamDecl.resolve t m.name p) fun param =>
      param.name = p.name := fun _ _ => Yields.always.bind fun _ _ => .ok rfl
  refine (Yields.mapM_map hparam).bind fun params hparams => ?_
  refine Yields.always.bind fun returns _ => .ok ?_
  have hfields : ((params.filter fun p => !p.isSupplied).map Param.field).map (·.name) =
      (params.map (·.name)).filter fun name =>
        !(name == sessionParameter || name == credentialsParameter) := by
    rw [List.map_map, List.filter_map]
    rfl
  rw [MethodDecl.outline, ← hparams, ← hfields]
  rfl

/-! ## 2. What is in the slots -/

/-- What a slot introduces; of a name that is only reserved there is the name. -/
def Slot.outline : Slot → Outline
  | .reserved name => ⟨"", name, [], []⟩
  | .defined body => body.outline

/-- What the slots of a table introduce, in order. -/
def TypeTable.outlines (t : TypeTable) : List Outline := t.slots.map Slot.outline

namespace TypeTable

variable {t : TypeTable}

theorem map_name_outlines (t : TypeTable) : t.outlines.map (·.name) = t.names := by
  have hname : ∀ slot : Slot, slot.outline.name = slot.name := fun slot => by cases slot <;> rfl
  rw [outlines, List.map_map, names]
  exact List.map_congr_left fun slot _ => hname slot

theorem getElem?_outlines_of_get {id : DefId} {body : Definition} (h : t.get id = .ok body) :
    t.outlines[id]? = some body.outline := by
  rw [outlines, List.getElem?_map, get_eq_ok_iff.mp h]
  rfl

/-- Where no name is there twice, a name tells what is introduced. -/
theorem eq_of_mem_outlines (h : t.names.Nodup) {o other : Outline} (ho : o ∈ t.outlines)
    (hother : other ∈ t.outlines) (hname : o.name = other.name) : o = other := by
  rw [← t.map_name_outlines] at h
  exact List.inj_on_of_nodup_map h ho hother hname

end TypeTable

namespace Manifest

theorem Defines.outlines_eq {m : Manifest} {t : TypeTable} (h : m.Defines t) :
    t.outlines = m.types.map fun e => e.2.outline e.1 := by
  refine List.ext_getElem? fun i => ?_
  rw [List.getElem?_map]
  cases hentry : m.types[i]? with
  | none =>
    have hlength : t.outlines.length = m.types.length := by
      rw [TypeTable.outlines, List.length_map]
      exact h.size_eq
    rw [List.getElem?_eq_none_iff] at hentry
    exact List.getElem?_eq_none (hlength ▸ hentry)
  | some entry =>
    obtain ⟨name, decl⟩ := entry
    obtain ⟨body, hresolved, hbody, -⟩ := h.bodies i name decl hentry
    have hsame := decl.resolve_outline t name body hresolved
    rw [TypeTable.getElem?_outlines_of_get hbody, hsame]
    rfl

/-- Every method takes up the next slot, and its parameters are what is introduced there. -/
theorem registerAll_outlines (r : Registry) (methods : List MethodDecl) :
    Yields (registerAll r methods) fun q =>
      q.types.outlines = r.types.outlines ++ methods.map MethodDecl.outline ∧
        q.methods.map (·.params) =
          r.methods.map (·.params) ++ List.range' r.types.size methods.length := by
  induction methods generalizing r with
  | nil => exact .ok ⟨(List.append_nil _).symm, (List.append_nil _).symm⟩
  | cons m rest ih =>
    intro q hq
    obtain ⟨s, result, hs, hregister, hrest⟩ := registerAll_cons_eq_ok_iff.mp hq
    have hsame := m.resolve_outline r.types s hs
    obtain ⟨hmethod, hmethods, hslots⟩ := Registry.register_yields r s result hregister
    obtain ⟨houtlines, hparams⟩ := ih result.2 q hrest
    have hnext : result.2.types.outlines = r.types.outlines ++ [m.outline] := by
      rw [TypeTable.outlines, hslots, List.map_append, List.map_singleton, ← hsame]
      rfl
    constructor
    · rw [houtlines, hnext, List.append_assoc]
      rfl
    · rw [hparams, hmethods, hmethod, TypeTable.size_of_insert hslots, List.map_append,
        List.append_assoc, List.length_cons, List.range'_succ]
      rfl

/-- **The slots of the registry of a manifest introduce what the manifest declares**, and those of
    the methods come last. -/
theorem toRegistry_outlines {m : Manifest} {r : Registry} {options : Bindings.Options}
    (h : m.toRegistry = .ok (r, options)) :
    r.types.outlines = m.outlines ∧
      r.methods.map (·.params) = List.range' m.types.length m.methods.length := by
  obtain ⟨t, ht, hregistered, -⟩ := exists_defines_of_toRegistry h
  obtain ⟨houtlines, hparams⟩ := registerAll_outlines (.ofTypes t) m.methods r hregistered
  refine ⟨?_, ?_⟩
  · rw [houtlines, outlines, ← ht.outlines_eq]
    rfl
  · rw [hparams, ← ht.size_eq]
    rfl

/-! ## 3. What is in the client code -/

/-- Whether client code declares what is declared in a manifest, member for member, and among it the
    parameters of every method. -/
structure Declares (m : Manifest) (b : Bindings) : Prop where
  declared : ∀ d ∈ b.declarations, ∃ o ∈ m.outlines, outline d.2 = o.written
  parameters : ∀ method ∈ m.methods, ∃ d ∈ b.declarations, outline d.2 = method.outline.written

section ClientCode

variable {m : Manifest} {r : Registry} {options settings : Bindings.Options} {b : Bindings}

/-- What is read off the text of a declaration is what its slot introduces. -/
theorem outline_of_mem_declarations (h : m.toRegistry = .ok (r, options))
    (hb : Bindings.generate r settings = .ok b) {d : DefId × String} (hd : d ∈ b.declarations) :
    ∃ o, r.types.outlines[d.1]? = some o ∧ outline d.2 = o.written := by
  obtain ⟨body, hid, hbody, -, htext⟩ := Bindings.exists_of_mem_declarations hb hd
  have hfits := Bindings.fitsLines (m.toRegistry_built _ h) (m.toRegistry_yields _ h)
    (Bindings.isWritable_of_generate hb) hid hbody
  have hblank : ∀ c ∈ settings.indentation.toList, (c == ' ') = true := by
    intro c hc
    rw [Bindings.Options.indentation, String.toList_ofList] at hc
    rw [List.eq_of_mem_replicate hc]
    rfl
  exact ⟨body.outline, TypeTable.getElem?_outlines_of_get hbody,
    Bindings.outline_of_written hblank hfits htext⟩

/-- **The client code of a manifest declares what is declared in it.** -/
theorem declares_of_toRegistry (h : m.toRegistry = .ok (r, options))
    (hb : Bindings.generate r settings = .ok b) : m.Declares b := by
  obtain ⟨houtlines, hparams⟩ := toRegistry_outlines h
  constructor
  · intro d hd
    obtain ⟨o, ho, houtline⟩ := outline_of_mem_declarations h hb hd
    rw [houtlines] at ho
    exact ⟨o, List.mem_of_getElem? ho, houtline⟩
  · intro method hmethod
    obtain ⟨i, hi⟩ := List.mem_iff_getElem?.mp hmethod
    have hlt : i < m.methods.length := (List.getElem?_eq_some_iff.mp hi).1
    -- The slot of the method is the one that its registration refers to, so it is declared.
    have hid : m.types.length + i ∈ r.methods.map (·.params) := by
      rw [hparams, List.mem_range'_1]
      omega
    obtain ⟨registered, hregistered, hslot⟩ := List.mem_map.mp hid
    have hreached : r.Reaches (m.types.length + i) :=
      hslot ▸ Registry.reaches_of_method hregistered List.mem_cons_self
    obtain ⟨d, hd, hnumber⟩ := List.mem_map.mp ((Bindings.mem_declared_iff hb).mpr hreached)
    obtain ⟨o, ho, houtline⟩ := outline_of_mem_declarations h hb hd
    have hplace : m.outlines[m.types.length + i]? = some method.outline := by
      rw [outlines, List.getElem?_append_right (by simp), List.length_map,
        Nat.add_sub_cancel_left, List.getElem?_map, hi]
      rfl
    rw [hnumber, houtlines, hplace] at ho
    obtain rfl := Option.some.inj ho
    exact ⟨d, hd, houtline⟩

end ClientCode

/-- Where enumerations have no member twice, what is introduced as one is listed once. -/
theorem EnumeratesOnce.listsOnce {m : Manifest} (h : m.EnumeratesOnce) {o : Outline}
    (ho : o ∈ m.outlines) (hkeyword : o.keyword = "enum") : o.ListsOnce := by
  have hinterface : "interface" ≠ "enum" := by decide
  have halias : "type" ≠ "enum" := by decide
  rcases List.mem_append.mp ho with htype | hmethod
  · obtain ⟨⟨name, decl⟩, hentry, rfl⟩ := List.mem_map.mp htype
    cases decl with
    | struct doc generics fields => exact absurd hkeyword hinterface
    | enumeration doc members => exact ⟨h _ hentry, List.nodup_nil⟩
    | «alias» generics ty => exact absurd hkeyword halias
  · obtain ⟨method, -, rfl⟩ := List.mem_map.mp hmethod
    exact absurd hkeyword hinterface

/-- **Client code lists the members and the type parameters of a declaration once exactly where the
    manifests do.** Everything that is declared, the parameters of every method included, lists what
    the manifests list. Enumerations list nothing twice; interfaces, parameter interfaces and
    headings list nothing twice exactly if nothing that is declared in the client code is declared
    with a repetition in the manifests. -/
theorem members_listed_once_iff {texts : List (List UInt8)} {r : Registry}
    {options settings : Bindings.Options} {b : Bindings} (h : load texts = .ok (r, options))
    (hb : Bindings.generate r settings = .ok b) :
    ∃ m, ofTexts texts = .ok m ∧ m.Declares b ∧
      (∀ d ∈ b.declarations, (outline d.2).keyword = "enum" → (outline d.2).ListsOnce) ∧
      ((∀ d ∈ b.declarations, (outline d.2).ListsOnce) ↔ ∀ o ∈ m.outlines,
        o.name ∈ b.declarations.map (fun d => (outline d.2).name) → o.ListsOnce) := by
  obtain ⟨m, hm, hregistry⟩ : ∃ m, ofTexts texts = .ok m ∧ m.toRegistry = .ok (r, options) := by
    rw [load] at h
    split at h
    · rename_i m hm
      exact ⟨m, hm, h⟩
    · cases h
  have hdeclares := declares_of_toRegistry hregistry hb
  have hnodup := (m.toRegistry_built _ hregistry).nodup_names
  have hslots := (toRegistry_outlines hregistry).1
  refine ⟨m, hm, hdeclares, fun d hd hkeyword => ?_, ?_, ?_⟩
  · obtain ⟨o, ho, houtline⟩ := hdeclares.declared d hd
    rw [houtline] at hkeyword ⊢
    rw [o.listsOnce_written_iff]
    exact (ofTexts_enumeratesOnce texts m hm).listsOnce ho hkeyword
  · intro hall o ho hname
    obtain ⟨d, hd, hdname⟩ := List.mem_map.mp hname
    obtain ⟨other, hother, houtline⟩ := hdeclares.declared d hd
    have hlists := hall d hd
    rw [houtline] at hdname hlists
    have heq : other = o :=
      TypeTable.eq_of_mem_outlines hnodup (hslots ▸ hother) (hslots ▸ ho) hdname
    rw [← heq]
    exact other.listsOnce_written_iff.mp hlists
  · intro hall d hd
    obtain ⟨o, ho, houtline⟩ := hdeclares.declared d hd
    have hname : o.name ∈ b.declarations.map (fun d => (outline d.2).name) :=
      List.mem_map.mpr ⟨d, hd, by rw [houtline, Outline.written]⟩
    rw [houtline, o.listsOnce_written_iff]
    exact hall o ho hname

/-- What the client code for some manifests introduces, if there is any. -/
def introduced (texts : List (List UInt8)) : Option (List Outline) :=
  match load texts with
  | .error _ => none
  | .ok (r, options) =>
    match Bindings.generate r options with
    | .error _ => none
    | .ok b => some (b.declarations.map fun d => outline d.2)

theorem exists_of_introduced {texts : List (List UInt8)} {outlines : List Outline}
    (h : introduced texts = some outlines) :
    ∃ r options b, load texts = .ok (r, options) ∧ Bindings.generate r options = .ok b ∧
      b.declarations.map (fun d => outline d.2) = outlines := by
  rw [introduced] at h
  split at h
  · cases h
  · rename_i r options hload
    split at h
    · cases h
    · rename_i b hb
      exact ⟨r, options, b, hload, hb, Option.some.inj h⟩

/-- A method that takes a level; one name stands twice among the levels. -/
def levels : List UInt8 :=
  ("\x7b\"types\":\x7b\"Level\":\x7b\"kind\":\"enum\"," ++
    "\"members\":\x7b\"LOW\":1,\"LOW\":2\x7d\x7d\x7d," ++
    "\"methods\":[\x7b\"name\":\"set\",\"params\":[\x7b\"name\":\"to\",\"type\":\"Level\"\x7d]," ++
    "\"returns\":\"null\"\x7d]\x7d").toUTF8.toList

theorem members_listed_once_iff_levels :
    ∃ r options b m, load [levels] = .ok (r, options) ∧ Bindings.generate r options = .ok b ∧
      b.declarations.map (fun d => outline d.2) =
        [⟨"interface", "SetParameters", [], ["to"]⟩, ⟨"enum", "Level", [], ["LOW"]⟩] ∧
      ofTexts [levels] = .ok m ∧ m.Declares b ∧
      (∀ d ∈ b.declarations, (outline d.2).keyword = "enum" → (outline d.2).ListsOnce) ∧
      ∀ o ∈ m.outlines, o.name ∈ b.declarations.map (fun d => (outline d.2).name) →
        o.ListsOnce := by
  have hintroduced : introduced [levels] = some
      [⟨"interface", "SetParameters", [], ["to"]⟩, ⟨"enum", "Level", [], ["LOW"]⟩] := by
    decide +kernel
  obtain ⟨r, options, b, h, hb, houtlines⟩ := exists_of_introduced hintroduced
  obtain ⟨m, hm, hdeclares, henums, hiff⟩ := members_listed_once_iff h hb
  have honce : ∀ d ∈ b.declarations, (outline d.2).ListsOnce := by
    refine List.forall_mem_map.mp ?_
    rw [houtlines]
    decide
  exact ⟨r, options, b, m, h, hb, houtlines, hm, hdeclares, henums, hiff.mp honce⟩

/-- A struct with a type parameter and a field twice, and a method that takes it, with a parameter
    twice. Fields, parameters and references are written as rows of what belongs to them. -/
def repetitions : List UInt8 :=
  ("\x7b\"types\":\x7b\"Pair\":\x7b\"kind\":\"struct\",\"generics\":[\"T\",\"T\"]," ++
    "\"fields\":[[\"x\",\"T\"],[\"x\",\"T\"]]\x7d\x7d,\"methods\":[\x7b\"name\":\"find\"," ++
    "\"params\":[[\"p\",\x7b\"ref\":[\"Pair\",[\"int\",\"int\"]]\x7d],[\"p\",\"int\"]]," ++
    "\"returns\":\"null\"\x7d]\x7d").toUTF8.toList

/-- **Repetitions in lists are written as they stand**: among the parameters of a method, among the
    fields of a struct and among the type parameters in its heading. -/
theorem repetitions_are_written :
    ∃ r options b, load [repetitions] = .ok (r, options) ∧ Bindings.generate r options = .ok b ∧
      b.declarations.map (fun d => outline d.2) =
        [⟨"interface", "FindParameters", [], ["p", "p"]⟩,
          ⟨"interface", "Pair", ["T", "T"], ["x", "x"]⟩] ∧
      (∀ d ∈ b.declarations, ¬ (outline d.2).members.Nodup) ∧
      ∃ d ∈ b.declarations, ¬ (outline d.2).generics.Nodup := by
  have hintroduced : introduced [repetitions] = some
      [⟨"interface", "FindParameters", [], ["p", "p"]⟩,
        ⟨"interface", "Pair", ["T", "T"], ["x", "x"]⟩] := by
    decide +kernel
  obtain ⟨r, options, b, h, hb, houtlines⟩ := exists_of_introduced hintroduced
  have hmembers : ∀ o ∈ b.declarations.map (fun d => outline d.2), ¬ o.members.Nodup := by
    rw [houtlines]
    decide
  have hgenerics : ∃ o ∈ b.declarations.map (fun d => outline d.2), ¬ o.generics.Nodup := by
    rw [houtlines]
    decide
  obtain ⟨o, ho, hrepeats⟩ := hgenerics
  obtain ⟨d, hd, rfl⟩ := List.mem_map.mp ho
  refine ⟨r, options, b, h, hb, houtlines, fun d hd => ?_, d, hd, hrepeats⟩
  exact hmembers (outline d.2) (List.mem_map_of_mem hd)

end Manifest

end WireContract
