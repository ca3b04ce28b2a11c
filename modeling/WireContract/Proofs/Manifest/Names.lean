import WireContract.Proofs.Bindings.Pieces
import WireContract.Proofs.Bindings.Success
import WireContract.Proofs.Manifest.Declared

/-!
# The names in the client code of a manifest

Client code that is generated for manifests is closed in itself: no two declarations introduce one
name, and every name that stands in a type expression is introduced. Three things have to come
together for this. The table gives a name once, manifests resolve names within their scope, and
generation declares all that the methods lead to.

* `exists_of_mem_declarations`, `mem_headings_of_reaches`: what is declared is what the methods lead
  to, and each of it is introduced;
* `NamesResolve`, `namesResolve`: the names of the client code of a registry;
* `merged_namesResolve`: and of manifests.
-/

namespace WireContract

namespace Bindings

/-! ## 1. The names of client code -/

/-- The pieces of the declarations. -/
def declarationBlocks (r : Registry) (settings : Options) (b : Bindings) : List (List Piece) :=
  b.declarations.map fun d => declarationPieces r.types settings.indentation d.1

/-- The pieces of the wrappers. -/
def wrapperBlocks (r : Registry) (settings : Options) : List (List Piece) :=
  r.methods.map (wrapperPieces r.types settings)

/-- Whether no name in the client code is left open or introduced twice. -/
structure NamesResolve (r : Registry) (settings : Options) (b : Bindings) : Prop where
  /-- The declarations are written with their pieces, and so are the wrappers. -/
  declarations : b.declarations.map (fun d => d.2.toList) =
    (declarationBlocks r settings b).map (written r.types)
  wrappers : b.wrappers.map String.toList = (wrapperBlocks r settings).map (written r.types)
  /-- Every declaration introduces one name, and a wrapper none. -/
  introduced : ∀ block ∈ declarationBlocks r settings b, ∃ name generics,
    headings block = [(name, generics)]
  none_introduced : ∀ block ∈ wrapperBlocks r settings, headings block = []
  /-- No name is introduced twice. -/
  distinct : (((declarationBlocks r settings b).flatMap headings).map (·.1)).Nodup
  /-- Every reference is to a name that is introduced, with as many type parameters as the reference
      passes arguments. -/
  references : ∀ block ∈ declarationBlocks r settings b ++ wrapperBlocks r settings,
    ∀ target count, .reference target count ∈ tokensOf block → ∃ generics,
      (r.types.nameOf target, generics) ∈ (declarationBlocks r settings b).flatMap headings ∧
        generics.length = count
  /-- Every type parameter is one of the declaration that it stands in, and no wrapper has one. -/
  parameters : ∀ block ∈ declarationBlocks r settings b, ∀ name, .parameter name ∈ tokensOf block →
    ∃ heading ∈ headings block, name ∈ heading.2
  none_parameters : ∀ block ∈ wrapperBlocks r settings, ∀ name, .parameter name ∉ tokensOf block

section Resolution

variable {r : Registry} {settings : Options} {b : Bindings}

/-- A declaration is one of a definition that the methods lead to, written with its pieces. -/
theorem exists_of_mem_declarations (h : generate r settings = .ok b) {d : DefId × String}
    (hd : d ∈ b.declarations) :
    ∃ body, r.Reaches d.1 ∧ r.types.get d.1 = .ok body ∧
      declarationPieces r.types settings.indentation d.1 =
        definitionPieces settings.indentation body ∧
      d.2.toList = written r.types (definitionPieces settings.indentation body) := by
  have hid : r.Reaches d.1 := (mem_declared_iff h).mp (List.mem_map_of_mem hd)
  have hfault : (declarationText r.types settings.indentation d.1).fault = none :=
    declarationText_fault_iff.mpr ((isWritable_of_generate h).definitions d.1 hid)
  obtain ⟨⟨body, hbody, -⟩, -⟩ := (isWritable_of_generate h).definitions d.1 hid
  have hpieces := declarationPieces_of_get hbody settings.indentation
  refine ⟨body, hid, hbody, hpieces, ?_⟩
  rw [declarations_eq h (Nat.le_refl _)] at hd
  obtain ⟨id, -, rfl⟩ := List.mem_map.mp hd
  rw [← hpieces]
  exact declarationText_spells _ _ _ hfault

theorem exists_of_mem_declarationBlocks (h : generate r settings = .ok b) {block : List Piece}
    (hblock : block ∈ declarationBlocks r settings b) :
    ∃ id body, r.Reaches id ∧ r.types.get id = .ok body ∧
      block = definitionPieces settings.indentation body := by
  obtain ⟨d, hd, rfl⟩ := List.mem_map.mp hblock
  obtain ⟨body, hid, hbody, hpieces, -⟩ := exists_of_mem_declarations h hd
  exact ⟨d.1, body, hid, hbody, hpieces⟩

/-- What the methods lead to is introduced. -/
theorem mem_headings_of_reaches (h : generate r settings = .ok b) {id : DefId} {body : Definition}
    (hid : r.Reaches id) (hbody : r.types.get id = .ok body) :
    (body.name, body.generics) ∈ (declarationBlocks r settings b).flatMap headings := by
  obtain ⟨d, hd, rfl⟩ := List.mem_map.mp ((mem_declared_iff h).mpr hid)
  refine List.mem_flatMap.mpr ⟨_, List.mem_map_of_mem hd, ?_⟩
  rw [declarationPieces_of_get hbody, headings_definitionPieces]
  exact List.mem_singleton_self _

/-- The names that are introduced are those of the declared definitions. -/
theorem map_headings (h : generate r settings = .ok b) :
    ((declarationBlocks r settings b).flatMap headings).map (·.1) =
      (b.declarations.map (·.1)).map r.types.nameOf := by
  have hone : ∀ d ∈ b.declarations,
      (headings (declarationPieces r.types settings.indentation d.1)).map (·.1) =
        [r.types.nameOf d.1] := by
    intro d hd
    obtain ⟨body, -, hbody, hpieces, -⟩ := exists_of_mem_declarations h hd
    rw [hpieces, headings_definitionPieces, TypeTable.nameOf_of_get hbody]
    rfl
  rw [List.map_flatMap, declarationBlocks, List.flatMap_map, List.flatMap_congr hone, List.map_map,
    List.map_eq_flatMap]
  rfl

/-- No two definitions that are declared have one name. -/
theorem nodup_headings (hnames : r.types.names.Nodup) (h : generate r settings = .ok b) :
    (((declarationBlocks r settings b).flatMap headings).map (·.1)).Nodup := by
  rw [map_headings h]
  refine (nodup_declared h).map_on fun id hid other hother heq => ?_
  obtain ⟨d, hd, rfl⟩ := List.mem_map.mp hid
  obtain ⟨e, he, rfl⟩ := List.mem_map.mp hother
  obtain ⟨body, -, hbody, -⟩ := exists_of_mem_declarations h hd
  obtain ⟨found, -, hfound, -⟩ := exists_of_mem_declarations h he
  exact TypeTable.eq_of_nameOf_eq hnames hbody hfound heq

/-- Every reference in an expression of the registry is to a name that is introduced. -/
theorem exists_heading_of_expresses (h : generate r settings = .ok b) {ty : Ty}
    (hty : r.Expresses ty) {target : DefId} {count : Nat}
    (ht : .reference target count ∈ typeTokens ty) :
    ∃ generics, (r.types.nameOf target, generics) ∈
      (declarationBlocks r settings b).flatMap headings ∧ generics.length = count := by
  obtain ⟨args, hpart, rfl⟩ := standsIn_of_mem_typeTokens ty _ ht
  have hsound := Registry.isSound_of_isWritable (isWritable_of_generate h) hty
  obtain ⟨body, hbody, hlen⟩ := hsound _ hpart
  have hid : r.Reaches target :=
    Registry.reaches_of_expresses hty (Ty.mem_mentions_iff.mpr ⟨args, hpart⟩)
  rw [TypeTable.nameOf_of_get hbody]
  exact ⟨body.generics, mem_headings_of_reaches h hid hbody, hlen.symm⟩

/-- A parameter that stands in a scoped expression is in scope. -/
theorem mem_of_parameter_mem_typeTokens {size : Nat} {names : List String} {ty : Ty}
    (hty : ty.IsScoped size names) {name : String} (h : .parameter name ∈ typeTokens ty) :
    name ∈ names :=
  hty _ (standsIn_of_mem_typeTokens ty _ h)

/-- No type parameter stands in what a method refers to. -/
theorem parameter_not_mem_method (hr : r.IsClosed) {m : Method} (hm : m ∈ r.methods) {ty : Ty}
    (hty : ty ∈ m.expressions) (name : String) : .parameter name ∉ typeTokens ty := by
  intro ht
  rcases List.mem_cons.mp hty with rfl | hty
  · exact absurd ht (by simp [Ty.reference, typeTokens, typeTokensOfAll, referenceTokens])
  · obtain rfl := List.mem_singleton.mp hty
    exact absurd (mem_of_parameter_mem_typeTokens (hr.results m hm) ht) List.not_mem_nil

/-- The wrapper of a method, and the tokens in it. -/
theorem tokensOf_wrapperPieces_of_mem (h : generate r settings = .ok b) {m : Method}
    (hm : m ∈ r.methods) :
    tokensOf (wrapperPieces r.types settings m) = m.expressions.flatMap typeTokens := by
  obtain ⟨⟨s, hs⟩, -⟩ := (isWritable_of_generate h).methods m hm
  exact tokensOf_wrapperPieces hs

/-- **Where the names of a table are distinct and its bodies closed, no name of the client code is
    left open.** -/
theorem namesResolve (hnames : r.types.names.Nodup) (hr : r.IsClosed)
    (h : generate r settings = .ok b) : NamesResolve r settings b where
  declarations := by
    rw [declarationBlocks, List.map_map]
    refine List.map_congr_left fun d hd => ?_
    obtain ⟨body, -, -, hpieces, htext⟩ := exists_of_mem_declarations h hd
    rw [htext, Function.comp_apply, hpieces]
  wrappers := by
    obtain ⟨hmethods, -, rfl⟩ := generate_completes h
    rw [wrapperBlocks, List.map_map, progressAt, List.map_map]
    exact List.map_congr_left fun m hm => wrapperText_spells _ _ m (hmethods m hm)
  introduced block hblock := by
    obtain ⟨id, body, -, -, rfl⟩ := exists_of_mem_declarationBlocks h hblock
    exact ⟨_, _, headings_definitionPieces body⟩
  none_introduced := List.forall_mem_map.mpr fun m _ => headings_wrapperPieces _ _ m
  distinct := nodup_headings hnames h
  references := by
    refine List.forall_mem_append.mpr ⟨fun block hblock target count ht => ?_,
      List.forall_mem_map.mpr fun m hm target count ht => ?_⟩
    · obtain ⟨id, body, hid, hbody, rfl⟩ := exists_of_mem_declarationBlocks h hblock
      rw [tokensOf_definitionPieces] at ht
      obtain ⟨ty, hty, ht⟩ := List.mem_flatMap.mp ht
      exact exists_heading_of_expresses h (Registry.expresses_of_definition hid hbody hty) ht
    · rw [tokensOf_wrapperPieces_of_mem h hm] at ht
      obtain ⟨ty, hty, ht⟩ := List.mem_flatMap.mp ht
      exact exists_heading_of_expresses h (Or.inl ⟨m, hm, hty⟩) ht
  parameters block hblock name ht := by
    obtain ⟨id, body, -, hbody, rfl⟩ := exists_of_mem_declarationBlocks h hblock
    rw [tokensOf_definitionPieces] at ht
    obtain ⟨ty, hty, ht⟩ := List.mem_flatMap.mp ht
    rw [headings_definitionPieces]
    refine ⟨_, List.mem_singleton_self _, ?_⟩
    exact mem_of_parameter_mem_typeTokens ((hr.bodies id body hbody).expressions ty hty) ht
  none_parameters := by
    refine List.forall_mem_map.mpr fun m hm name ht => ?_
    rw [tokensOf_wrapperPieces_of_mem h hm] at ht
    obtain ⟨ty, hty, ht⟩ := List.mem_flatMap.mp ht
    exact parameter_not_mem_method hr hm hty name ht

end Resolution

end Bindings

namespace Manifest

/-- **The client code of manifests has no name that is left open or introduced twice**: what is
    written is exactly the pieces of the declared definitions and of the methods, every reference
    among them is to a name that one declaration introduces with as many type parameters, and every
    type parameter is one of the declaration that it stands in. -/
theorem merged_namesResolve {ms : List Manifest} {r : Registry}
    {options settings : Bindings.Options} {b : Bindings}
    (h : (mergeAll .empty ms >>= toRegistry) = .ok (r, options))
    (hb : Bindings.generate r settings = .ok b) : Bindings.NamesResolve r settings b := by
  have hbuilt : Yields (mergeAll .empty ms >>= toRegistry) fun result => result.1.types.Built :=
    Yields.always.bind fun m _ => m.toRegistry_built
  have hclosed : Yields (mergeAll .empty ms >>= toRegistry) fun result => result.1.IsClosed :=
    Yields.always.bind fun m _ => m.toRegistry_yields
  exact Bindings.namesResolve (hbuilt _ h).nodup_names (hclosed _ h) hb

theorem merged_namesResolve_boxes :
    ∃ r options b, (mergeAll .empty [boxes, opening] >>= toRegistry) = .ok (r, options) ∧
      Bindings.generate r options = .ok b ∧ b.declarations.length = 2 ∧
      Bindings.NamesResolve r options b := by
  obtain ⟨r, options, b, h, hb, hlength⟩ : ∃ r options b,
      (mergeAll .empty [boxes, opening] >>= toRegistry) = .ok (r, options) ∧
        Bindings.generate r options = .ok b ∧ b.declarations.length = 2 :=
    ⟨_, _, _, rfl, rfl, rfl⟩
  exact ⟨r, options, b, h, hb, hlength, merged_namesResolve h hb⟩

end Manifest

end WireContract
