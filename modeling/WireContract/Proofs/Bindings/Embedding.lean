import WireContract.Proofs.Bindings.Renumbering
import WireContract.Proofs.Bindings.Success

/-!
# Registries under other numbers

A registry is embedded in another one if the other has the same methods and, under other numbers,
all definitions that the methods lead to. The other may have more definitions, in any order. Such a
registry generates the same client code: the same is discovered, in the same order, and written with
the same text.

* `Registry.Embeds`: the same methods and definitions under other numbers;
* `exists_reaches_of_reaches`, `wave_eq`: the same is discovered, wave by wave;
* `Embeds.isWritable`: what can be written in the one can be written in the other;
* `generate_of_embeds`: the same client code is generated.
-/

namespace WireContract

open Relation

namespace Registry

/-- Whether the second registry has the methods of the first and the definitions that these lead
    to, all under other numbers. Nothing is asked of any other definition. -/
structure Embeds (ρ : DefId → DefId) (r r' : Registry) : Prop where
  methods : r'.methods = r.methods.map (Method.rename ρ)
  get : ∀ id, r.Reaches id → ∀ body, r.types.get id = .ok body →
    r'.types.get (ρ id) = .ok (body.rename ρ)
  injective : ∀ id other, r.Reaches id → r.Reaches other → ρ id = ρ other → id = other

namespace Embeds

variable {ρ : DefId → DefId} {r r' : Registry}

section Discovery

variable (h : r.Embeds ρ r') (hr : Bindings.IsWritable r)

include h

theorem mentions : r'.mentions = r.mentions.map ρ := by
  rw [Registry.mentions, h.methods, List.flatMap_map, Registry.mentions, List.map_flatMap]
  exact List.flatMap_congr fun m _ => m.mentions_rename

include hr

/-! ## 1. Discovery -/

theorem mentionsOf {id : DefId} (hid : r.Reaches id) :
    r'.types.mentionsOf (ρ id) = (r.types.mentionsOf id).map ρ := by
  obtain ⟨⟨body, hbody, -⟩, -⟩ := hr.definitions id hid
  rw [TypeTable.mentionsOf_of_get (h.get id hid body hbody), TypeTable.mentionsOf_of_get hbody,
    Definition.mentions_rename]

/-- **The same waves are discovered.** -/
theorem wave_eq (k : Nat) : r'.wave k = (r.wave k).map ρ := by
  rw [Registry.wave, h.mentions]
  exact (Bindings.wave_map (fun id hid => h.mentionsOf hr hid) h.injective k).1

/-- Nothing else is reached. -/
theorem exists_reaches_of_reaches {id' : DefId} (hid : r'.Reaches id') :
    ∃ id, r.Reaches id ∧ ρ id = id' := by
  obtain ⟨k, hk⟩ := Bindings.exists_mem_wave_iff.mpr hid
  have hmem : id' ∈ (r.wave k).map ρ := h.wave_eq hr k ▸ hk
  obtain ⟨id, hwave, rfl⟩ := List.mem_map.mp hmem
  exact ⟨id, Bindings.reached_of_mem_wave hwave, rfl⟩

/-! ## 2. Cycles of aliases -/

theorem exists_headStep {id next' : DefId} (hid : r.Reaches id)
    (hstep : r'.types.HeadStep (ρ id) next') :
    ∃ next, r.types.HeadStep id next ∧ ρ next = next' := by
  obtain ⟨a', ha', hnext⟩ := hstep
  obtain ⟨⟨body, hbody, -⟩, -⟩ := hr.definitions id hid
  have hrenamed := (h.get id hid body hbody).symm.trans ha'
  cases body with
  | «alias» a =>
    obtain rfl : { a with ty := a.ty.rename ρ } = a' := by simpa [Definition.rename] using hrenamed
    rw [Ty.heads_rename] at hnext
    obtain ⟨next, hmem, rfl⟩ := List.mem_map.mp hnext
    exact ⟨next, ⟨a, hbody, hmem⟩, rfl⟩
  | _ => simp [Definition.rename] at hrenamed

/-- Every way from alias to alias is one in the first registry. -/
theorem exists_headSteps {id other' : DefId} (hid : r.Reaches id)
    (hsteps : TransGen r'.types.HeadStep (ρ id) other') :
    ∃ other, TransGen r.types.HeadStep id other ∧ ρ other = other' := by
  induction hsteps with
  | single hlast =>
    obtain ⟨next, hnext, rfl⟩ := h.exists_headStep hr hid hlast
    exact ⟨next, .single hnext, rfl⟩
  | tail _ hlast ih =>
    obtain ⟨between, hbetween, rfl⟩ := ih
    have hreached := reaches_of_headSteps hid hbetween.to_reflTransGen
    obtain ⟨next, hnext, rfl⟩ := h.exists_headStep hr hreached hlast
    exact ⟨next, hbetween.tail hnext, rfl⟩

theorem acyclic {id : DefId} (hid : r.Reaches id) :
    ¬ TransGen r'.types.HeadStep (ρ id) (ρ id) := by
  intro hcycle
  obtain ⟨other, hsteps, heq⟩ := h.exists_headSteps hr hid hcycle
  have hother := reaches_of_headSteps hid hsteps.to_reflTransGen
  obtain rfl := h.injective other id hother hid heq
  exact (wellFormed_of_isWritable hr).acyclic other hid hsteps

/-! ## 3. Writing -/

/-- What an expression or a definition refers to is there under its new number, with as many
    parameters and under the same name. -/
theorem exists_get {id : DefId} (hid : r.Reaches id) :
    ∃ body, r.types.get id = .ok body ∧ r'.types.get (ρ id) = .ok (body.rename ρ) := by
  obtain ⟨⟨body, hbody, -⟩, -⟩ := hr.definitions id hid
  exact ⟨body, hbody, h.get id hid body hbody⟩

theorem nameOf_eq {id : DefId} (hid : r.Reaches id) :
    r'.types.nameOf (ρ id) = r.types.nameOf id := by
  obtain ⟨body, hbody, hbody'⟩ := h.exists_get hr hid
  rw [TypeTable.nameOf_of_get hbody, TypeTable.nameOf_of_get hbody', Definition.name_rename]

theorem isSound {ty : Ty} (hty : r.Expresses ty) : (ty.rename ρ).IsSound r'.types := by
  refine (isSound_of_isWritable hr hty).rename fun id hid body hbody => ?_
  refine ⟨_, h.get id (reaches_of_expresses hty hid) body hbody, ?_⟩
  rw [Definition.generics_rename]

/-- **What can be written to the end in the one can be in the other.** -/
theorem isWritable : Bindings.IsWritable r' where
  methods := by
    rw [h.methods]
    refine List.forall_mem_map.mpr fun m hm => ⟨?_, ?_⟩
    · obtain ⟨s, hs⟩ := (hr.methods m hm).1
      exact ⟨_, h.get _ (reaches_of_method hm List.mem_cons_self) _ hs⟩
    · rw [m.expressions_rename]
      exact List.forall_mem_map.mpr fun ty hty => h.isSound hr (Or.inl ⟨m, hm, hty⟩)
  definitions id' hid' := by
    obtain ⟨id, hid, rfl⟩ := h.exists_reaches_of_reaches hr hid'
    obtain ⟨⟨body, hbody, hsound⟩, -⟩ := hr.definitions id hid
    refine ⟨⟨_, h.get id hid body hbody, hsound.rename fun other hother found hfound => ?_⟩, ?_⟩
    · refine ⟨_, h.get other (reaches_of_definition hid hbody hother) found hfound, ?_⟩
      rw [Definition.generics_rename]
    · refine (TypeTable.aliasCycle_eq_none_iff fun other' hother' => ?_).mpr (h.acyclic hr hid)
      rcases reflTransGen_iff_eq_or_transGen.mp hother' with rfl | hsteps
      · exact ⟨_, h.get id hid body hbody⟩
      · obtain ⟨other, hbefore, rfl⟩ := h.exists_headSteps hr hid hsteps
        have hother := reaches_of_headSteps hid hbefore.to_reflTransGen
        obtain ⟨found, -, hfound⟩ := h.exists_get hr hother
        exact ⟨_, hfound⟩

end Discovery

end Embeds

end Registry

namespace Bindings

section Generation

variable {ρ : DefId → DefId} {r r' : Registry} {options : Options}

/-- A definition that the methods lead to is declared with the same text. -/
theorem declaration_of_embeds (h : r.Embeds ρ r') (hr : IsWritable r) {id : DefId}
    (hid : r.Reaches id) (hid' : r'.Reaches (ρ id)) (indentation : String) :
    declaration r'.types indentation (ρ id) =
      (ρ id, (declaration r.types indentation id).2) := by
  obtain ⟨body, hbody, hbody'⟩ := h.exists_get hr hid
  have hfault : (declarationText r.types indentation id).fault = none :=
    (declarationText_completes _ _ _).fault_iff.mpr (hr.definitions id hid)
  have hfault' : (declarationText r'.types indentation (ρ id)).fault = none :=
    (declarationText_completes _ _ _).fault_iff.mpr ((h.isWritable hr).definitions _ hid')
  have hnames : ∀ target ∈ body.mentions, r'.types.nameOf (ρ target) = r.types.nameOf target :=
    fun target htarget => h.nameOf_eq hr (Registry.reaches_of_definition hid hbody htarget)
  rw [declaration, declarationText_rename hbody hbody' hnames hfault hfault']
  rfl

/-- A method is wrapped with the same text. -/
theorem wrapperText_of_embeds (h : r.Embeds ρ r') (hr : IsWritable r) {m : Method}
    (hm : m ∈ r.methods) :
    (wrapperText r'.types options (m.rename ρ)).text = (wrapperText r.types options m).text := by
  obtain ⟨s, hs⟩ := (hr.methods m hm).1
  have hm' : m.rename ρ ∈ r'.methods := h.methods ▸ List.mem_map_of_mem hm
  have hfault : (wrapperText r.types options m).fault = none :=
    wrapperText_fault_iff.mpr (hr.methods m hm)
  have hfault' : (wrapperText r'.types options (m.rename ρ)).fault = none :=
    wrapperText_fault_iff.mpr ((h.isWritable hr).methods _ hm')
  have hreached : ∀ id ∈ m.mentions, r.Reaches id := fun id => Registry.reaches_of_method hm
  refine wrapperText_rename hs (h.get _ (hreached _ List.mem_cons_self) _ hs) ?_ hfault hfault'
  exact fun target htarget => h.nameOf_eq hr (hreached target htarget)

/-- **The same client code is generated under other numbers**, in the same order, whatever other
    definitions there are. -/
theorem generate_of_embeds (h : r.Embeds ρ r') {b : Bindings} (hb : generate r options = .ok b) :
    generate r' options =
      .ok { declarations := b.declarations.map fun d => (ρ d.1, d.2), wrappers := b.wrappers } := by
  have hr := isWritable_of_generate hb
  have hb' : generate r' options = .ok (progressAt r' options r'.types.size).blocks :=
    generate_eq (h.isWritable hr) (fits_of_generate hb)
  have hsize := Nat.le_max_left r.types.size r'.types.size
  have hsize' := Nat.le_max_right r.types.size r'.types.size
  have hdeclared := declarations_eq hb hsize
  have hdeclared' := declarations_eq hb' hsize'
  obtain ⟨-, -, rfl⟩ := generate_completes hb
  rw [hb']
  refine congrArg Except.ok (congrArg₂ Bindings.mk ?_ ?_)
  · change (progressAt r' options r'.types.size).blocks.declarations = _
    rw [hdeclared', hdeclared, List.map_map, List.map_flatMap, List.map_flatMap]
    refine List.flatMap_congr fun k _ => ?_
    rw [h.wave_eq hr, List.map_map]
    refine List.map_congr_left fun id hid => ?_
    have hmem : ρ id ∈ r'.wave k := h.wave_eq hr k ▸ List.mem_map_of_mem hid
    exact declaration_of_embeds h hr (reached_of_mem_wave hid) (reached_of_mem_wave hmem) _
  · change r'.methods.map _ = r.methods.map _
    rw [h.methods, List.map_map]
    exact List.map_congr_left fun m hm => wrapperText_of_embeds h hr hm

end Generation

end Bindings

end WireContract
