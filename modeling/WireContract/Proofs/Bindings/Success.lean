import WireContract.Proofs.Bindings.Emission
import WireContract.Proofs.Type.AliasSearch

/-!
# When client code can be generated

Generation refuses a registry for eight kinds of defects, found in different places while the text
is being written. All of them are properties of what the methods lead to, and none depends on the
order of writing. Before all of them comes a defect of the settings: one level of indentation that
is longer than any text can be.

* `Registry.WellFormed`: what the methods lead to has none of these defects;
* `isWritable_iff_wellFormed`: that is what writing to the end comes down to, block by block;
* `Registry.Agrees`: two registries that have the same methods and differ only in definitions that
  these do not lead to; `Agrees.wellFormed`: both are well formed, or none is;
* `generate_succeeds_iff`: generation succeeds exactly if the settings fit and the registry is well
  formed, and definitions that the methods do not lead to have no say in it;
  `wide_indentation_overflows`: of the settings this much is needed.
-/

namespace WireContract

open Relation

namespace Registry

/-- Whether a part of a type expression is written out in client code: it stands in an expression
    of a method or of a definition that the methods lead to. -/
def Writes (r : Registry) (part : Ty) : Prop := ∃ ty, r.Expresses ty ∧ part ∈ ty.parts

/-- What the methods lead to has no defect. The parameters of a method count as a reference
    without arguments, since this is how its wrapper is written. -/
structure WellFormed (r : Registry) : Prop where
  parameters : ∀ m ∈ r.methods, ∃ s, r.types.get m.params = .ok (.struct s)
  defined : ∀ id, r.Reaches id → ∃ body, r.types.get id = .ok body
  arity : ∀ target args, r.Writes (.named target args) →
    ∀ body, r.types.get target = .ok body → args.length = body.generics.length
  shape : ∀ kind elems variadic, r.Writes (.container kind elems variadic) →
    kind.Admits elems.length variadic
  unions : ¬ r.Writes (.union [])
  literals : ∀ values, r.Writes (.literals values) → values ≠ [] ∧ ∀ v ∈ values, v.IsScalar
  constants : ∀ id e, r.Reaches id → r.types.get id = .ok (.enumeration e) →
    ∀ m ∈ e.members, m.value.IsScalar
  acyclic : ∀ id, r.Reaches id → ¬ TransGen r.types.HeadStep id id

section Reach

variable {r : Registry}

theorem reaches_of_writes {target : DefId} {args : List Ty} (h : r.Writes (.named target args)) :
    r.Reaches target := by
  obtain ⟨ty, hty, hpart⟩ := h
  exact reaches_of_expresses hty (Ty.mem_mentions_iff.mpr ⟨args, hpart⟩)

theorem reaches_of_headStep {id next : DefId} (h : r.Reaches id)
    (hstep : r.types.HeadStep id next) : r.Reaches next := by
  obtain ⟨a, ha, hnext⟩ := hstep
  refine reaches_of_definition h ha ?_
  exact List.mem_flatMap_of_mem List.mem_cons_self (a.ty.heads_subset_mentions hnext)

theorem reaches_of_headSteps {id other : DefId} (h : r.Reaches id)
    (hsteps : ReflTransGen r.types.HeadStep id other) : r.Reaches other := by
  induction hsteps with
  | refl => exact h
  | tail _ hstep ih => exact reaches_of_headStep ih hstep

end Reach

/-! ## 1. Well-formed and writable -/

section WellFormed

variable {r : Registry}

theorem WellFormed.isSound (h : r.WellFormed) {ty : Ty} (hty : r.Expresses ty) :
    ty.IsSound r.types := by
  intro part hpart
  have hwrites : r.Writes part := ⟨ty, hty, hpart⟩
  cases part with
  | named target args =>
    obtain ⟨body, hbody⟩ := h.defined target (reaches_of_writes hwrites)
    exact ⟨body, hbody, h.arity target args hwrites body hbody⟩
  | container kind elems variadic => exact h.shape kind elems variadic hwrites
  | union members => exact fun hnil => h.unions (hnil ▸ hwrites)
  | literals values => exact h.literals values hwrites
  | _ => exact trivial

theorem WellFormed.aliasCycle_eq_none (h : r.WellFormed) {id : DefId} (hid : r.Reaches id) :
    r.types.aliasCycle id = .ok none :=
  (TypeTable.aliasCycle_eq_none_iff fun other hother =>
    h.defined other (reaches_of_headSteps hid hother)).mpr (h.acyclic id hid)

theorem WellFormed.isWritable (h : r.WellFormed) : Bindings.IsWritable r where
  methods m hm := ⟨h.parameters m hm, fun ty hty => h.isSound (Or.inl ⟨m, hm, hty⟩)⟩
  definitions id hid := by
    obtain ⟨body, hbody⟩ := h.defined id hid
    refine ⟨⟨body, hbody, ?_, ?_⟩, h.aliasCycle_eq_none hid⟩
    · exact fun ty hty => h.isSound (expresses_of_definition hid hbody hty)
    · cases body with
      | enumeration e => exact List.forall_mem_map.mpr (h.constants id e hid hbody)
      | _ => exact fun v hv => absurd hv List.not_mem_nil

theorem isSound_of_isWritable (h : Bindings.IsWritable r) {ty : Ty} (hty : r.Expresses ty) :
    ty.IsSound r.types := by
  rcases hty with ⟨m, hm, hty⟩ | ⟨id, body, hid, hbody, hty⟩
  · exact (h.methods m hm).2 ty hty
  · obtain ⟨⟨other, hother, hsound⟩, -⟩ := h.definitions id hid
    obtain rfl := Except.ok.inj (hbody.symm.trans hother)
    exact hsound.expressions ty hty

theorem wellFormed_of_isWritable (h : Bindings.IsWritable r) : r.WellFormed := by
  have hfits : ∀ part, r.Writes part → part.FitsTable r.types := by
    rintro part ⟨ty, hty, hpart⟩
    exact isSound_of_isWritable h hty part hpart
  have hdef : ∀ id, r.Reaches id → ∃ body, r.types.get id = .ok body := by
    intro id hid
    obtain ⟨⟨body, hbody, -⟩, -⟩ := h.definitions id hid
    exact ⟨body, hbody⟩
  exact {
    parameters := fun m hm => (h.methods m hm).1
    defined := hdef
    arity := by
      intro target args hwrites body hbody
      obtain ⟨other, hother, hlen⟩ := hfits _ hwrites
      obtain rfl := Except.ok.inj (hbody.symm.trans hother)
      exact hlen
    shape := fun kind elems variadic hwrites => hfits _ hwrites
    unions := fun hwrites => hfits _ hwrites rfl
    literals := fun values hwrites => hfits _ hwrites
    constants := by
      intro id e hid he
      obtain ⟨⟨body, hbody, hsound⟩, -⟩ := h.definitions id hid
      obtain rfl := Except.ok.inj (he.symm.trans hbody)
      exact Definition.isSound_enumeration_iff.mp hsound
    acyclic := by
      intro id hid
      have hall := fun other hother => hdef other (reaches_of_headSteps hid hother)
      exact (TypeTable.aliasCycle_eq_none_iff hall).mp (h.definitions id hid).2 }

/-- **Writing to the end, block by block, is being well formed as a whole.** -/
theorem isWritable_iff_wellFormed : Bindings.IsWritable r ↔ r.WellFormed :=
  ⟨wellFormed_of_isWritable, WellFormed.isWritable⟩

end WellFormed

/-! ## 2. What the methods do not lead to -/

/-- Two registries with the same methods, and with the same definitions as far as the methods lead
    to them in the first. -/
structure Agrees (r r' : Registry) : Prop where
  methods : r'.methods = r.methods
  get : ∀ id, r.Reaches id → r'.types.get id = r.types.get id

namespace Agrees

variable {r r' : Registry}

theorem mentionsOf (h : r.Agrees r') {id : DefId} (hid : r.Reaches id) :
    r'.types.mentionsOf id = r.types.mentionsOf id := by
  rw [TypeTable.mentionsOf, TypeTable.mentionsOf, h.get id hid]

theorem reaches_iff (h : r.Agrees r') {id : DefId} : r'.Reaches id ↔ r.Reaches id := by
  have hmentions : r'.mentions = r.mentions := by rw [mentions, mentions, h.methods]
  constructor
  · intro hid
    induction hid with
    | start id hstart => exact .start id (hmentions ▸ hstart)
    | next target id _ hnext ih => exact .next target id ih (h.mentionsOf ih ▸ hnext)
  · intro hid
    induction hid with
    | start id hstart => exact .start id (hmentions ▸ hstart)
    | next target id htarget hnext ih =>
      exact .next target id ih ((h.mentionsOf htarget).symm ▸ hnext)

theorem symm (h : r.Agrees r') : r'.Agrees r where
  methods := h.methods.symm
  get id hid := (h.get id (h.reaches_iff.mp hid)).symm

theorem expresses {ty : Ty} (h : r.Agrees r') (hty : r'.Expresses ty) : r.Expresses ty := by
  rcases hty with ⟨m, hm, hty⟩ | ⟨id, body, hid, hbody, hty⟩
  · exact Or.inl ⟨m, h.methods ▸ hm, hty⟩
  · have hid := h.reaches_iff.mp hid
    exact expresses_of_definition hid ((h.get id hid).symm.trans hbody) hty

theorem writes {part : Ty} (h : r.Agrees r') (hpart : r'.Writes part) : r.Writes part := by
  obtain ⟨ty, hty, hpart⟩ := hpart
  exact ⟨ty, h.expresses hty, hpart⟩

theorem headSteps (h : r.Agrees r') {id other : DefId} (hid : r.Reaches id)
    (hsteps : TransGen r'.types.HeadStep id other) : TransGen r.types.HeadStep id other := by
  have hstep : ∀ {current next}, r.Reaches current → r'.types.HeadStep current next →
      r.types.HeadStep current next := by
    rintro current next hcurrent ⟨a, ha, hnext⟩
    exact ⟨a, (h.get current hcurrent).symm.trans ha, hnext⟩
  induction hsteps with
  | single hlast => exact .single (hstep hid hlast)
  | tail _ hlast ih => exact .tail ih (hstep (reaches_of_headSteps hid ih.to_reflTransGen) hlast)

/-- **Definitions that the methods do not lead to make no registry ill-formed.** -/
theorem wellFormed (h : r.Agrees r') (hr : r.WellFormed) : r'.WellFormed where
  parameters m hm := by
    have hm : m ∈ r.methods := h.methods ▸ hm
    obtain ⟨s, hs⟩ := hr.parameters m hm
    exact ⟨s, (h.get _ (reaches_of_method hm List.mem_cons_self)).trans hs⟩
  defined id hid := by
    have hid := h.reaches_iff.mp hid
    rw [h.get id hid]
    exact hr.defined id hid
  arity target args hwrites body hbody := by
    have hwrites := h.writes hwrites
    rw [h.get target (reaches_of_writes hwrites)] at hbody
    exact hr.arity target args hwrites body hbody
  shape kind elems variadic hwrites := hr.shape kind elems variadic (h.writes hwrites)
  unions hwrites := hr.unions (h.writes hwrites)
  literals values hwrites := hr.literals values (h.writes hwrites)
  constants id e hid he := by
    have hid := h.reaches_iff.mp hid
    exact hr.constants id e hid ((h.get id hid).symm.trans he)
  acyclic id hid hcycle := by
    have hid := h.reaches_iff.mp hid
    exact hr.acyclic id hid (h.headSteps hid hcycle)

end Agrees

end Registry

/-! ## 3. Success -/

namespace Bindings

theorem generate_isOk_iff {r : Registry} {options : Options} :
    (∃ b, generate r options = .ok b) ↔ options.Fits ∧ r.WellFormed := by
  rw [← Registry.isWritable_iff_wellFormed]
  constructor
  · intro h
    rcases h with ⟨b, hb⟩
    exact ⟨fits_of_generate hb, isWritable_of_generate hb⟩
  · exact fun h => ⟨_, generate_eq h.2 h.1⟩

theorem wellFormed_of_generate {r : Registry} {options : Options} {b : Bindings}
    (h : generate r options = .ok b) : r.WellFormed :=
  (generate_isOk_iff.mp ⟨b, h⟩).2

/-- **Generation succeeds exactly if what the methods lead to is well formed**, and no definition
    that they do not lead to makes it fail, whatever the settings, as long as one level of
    indentation fits into a text. Where it does not, generation overflows for every registry. -/
theorem generate_succeeds_iff (r : Registry) (options : Options) :
    ((∃ b, generate r options = .ok b) ↔ options.Fits ∧ r.WellFormed) ∧
    (generate r options = .error .overflow ↔ ¬ options.Fits) ∧
    ∀ r' options', r.Agrees r' → (options'.Fits ↔ options.Fits) →
      ((∃ b, generate r' options' = .ok b) ↔ ∃ b, generate r options = .ok b) := by
  refine ⟨generate_isOk_iff, generate_eq_overflow_iff, fun r' options' h hfits => ?_⟩
  rw [generate_isOk_iff, generate_isOk_iff, hfits]
  exact and_congr_right' ⟨h.symm.wellFormed, h.wellFormed⟩

/-- The definitions of the forest, the leaf defined as a reference to itself. -/
def witheredTypes : TypeTable :=
  { slots := forest.types.slots.set 2
      (.defined (.alias { name := "Leaf", ty := .reference 2 })) }

theorem generate_succeeds_iff_forest :
    witheredTypes.aliasCycle 2 = .ok (some ["Leaf", "Leaf"]) ∧
      ∃ b, generate { forest with types := witheredTypes } {} = .ok b := by
  have hreached : ∀ id, forest.Reaches id → id ∈ [4, 3, 0, 1] := by
    have hend : wave forest.mentions forest.types.mentionsOf 3 = [] := by decide
    have hfound : wavesBefore forest.mentions forest.types.mentionsOf 3 = [4, 3, 0, 1] := by decide
    intro id hid
    rw [← hfound]
    exact (mem_wavesBefore_iff_reached hend).mpr hid
  have hsame : ∀ id ∈ [4, 3, 0, 1], witheredTypes.get id = forest.types.get id := by
    simp only [List.forall_mem_cons]
    exact ⟨rfl, rfl, rfl, rfl, fun _ hid => absurd hid List.not_mem_nil⟩
  have hagrees : forest.Agrees { forest with types := witheredTypes } :=
    ⟨rfl, fun id hid => hsame id (hreached id hid)⟩
  refine ⟨rfl, ?_⟩
  exact ((generate_succeeds_iff forest {}).2.2 _ {} hagrees Iff.rfl).mpr ⟨_, rfl⟩

/-- **An indentation that is no text ends the program**, also where nothing is indented: a registry
    without methods is well formed. -/
theorem wide_indentation_overflows :
    ¬ ∀ (r : Registry) (options : Options),
      (∃ b, generate r options = .ok b) ↔ r.WellFormed := by
  intro h
  obtain ⟨b, hb⟩ : ∃ b, generate (.ofTypes .empty) {} = .ok b := ⟨_, rfl⟩
  have hempty := wellFormed_of_generate hb
  obtain ⟨b, hb⟩ := (h (.ofTypes .empty) { indent := 18446744073709551615 }).mpr hempty
  have hfits : ¬ Options.Fits { indent := 18446744073709551615 } := by decide
  exact hfits (fits_of_generate hb)

end Bindings

end WireContract
