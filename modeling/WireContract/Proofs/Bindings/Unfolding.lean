import WireContract.Proofs.Bindings.Success
import WireContract.Proofs.Type.Unfolding
import WireContract.Wire.Check

/-!
# Unfolding the types of client code

Generation searches the aliases that the methods lead to for cycles, and the search does not look
into arguments. So a registry that generates may still have types that can be unfolded forever, but
only by way of an argument for a parameter that an alias brings to its head.

* `Registry.Occurs`: the types in the signatures of methods and in declarations;
* `forall_not_unfoldsForever_iff`: none of them is unfolded forever exactly if no alias comes back
  to itself when arguments are followed too;
* `generated_types_unfold`: that, and what the search is good for by itself: where no alias brings
  a parameter to its head, what generates is never unfolded forever;
* `mirror`: a registry that generates although its only result is unfolded forever.
-/

namespace WireContract

open Relation

namespace Registry

/-- Whether a type stands in the signature of a method or in a declaration of the client code. A
    field brings in its type as it is declared and as it is written, with absence split off. -/
def Occurs (r : Registry) (ty : Ty) : Prop :=
  r.Writes ty ∨ ∃ id s, r.Reaches id ∧ r.types.get id = .ok (.struct s) ∧
    ∃ f ∈ s.fields, ty ∈ f.ty.parts

section Occurrences

variable {r : Registry}

/-- What an occurring type mentions is reached. -/
theorem reaches_of_occurs {ty : Ty} (h : r.Occurs ty) {id : DefId} (hid : id ∈ ty.mentions) :
    r.Reaches id := by
  rcases h with ⟨whole, hwhole, hpart⟩ | ⟨target, s, htarget, hs, f, hf, hpart⟩
  · exact reaches_of_expresses hwhole (Ty.mentions_subset_of_mem_parts hpart hid)
  · have hshape : id ∈ f.shape.1.mentions := by
      rw [f.mentions_shape]
      exact Ty.mentions_subset_of_mem_parts hpart hid
    refine reaches_of_definition htarget hs ?_
    exact List.mem_flatMap_of_mem (List.mem_map_of_mem hf) hshape

/-- What is reached occurs in a reference to it. -/
theorem exists_occurs_of_reaches {id : DefId} (h : r.Reaches id) :
    ∃ args, r.Occurs (.named id args) := by
  obtain ⟨ty, hty, hid⟩ := reaches_iff_expresses.mp h
  obtain ⟨args, hpart⟩ := Ty.mem_mentions_iff.mp hid
  exact ⟨args, Or.inl ⟨ty, hty, hpart⟩⟩

theorem reaches_of_expands {id next : DefId} (h : r.Reaches id)
    (hstep : r.types.Expands id next) : r.Reaches next := by
  obtain ⟨a, ha, hnext⟩ := hstep
  refine reaches_of_definition h ha ?_
  exact List.mem_flatMap_of_mem List.mem_cons_self hnext.mem_mentions

theorem reaches_of_expansions {id other : DefId} (h : r.Reaches id)
    (hsteps : ReflTransGen r.types.Expands id other) : r.Reaches other := by
  induction hsteps with
  | refl => exact h
  | tail _ hstep ih => exact reaches_of_expands ih hstep

/-- **No occurring type is unfolded forever exactly if no reached alias comes back to itself** when
    the arguments that come to the head are followed too. -/
theorem forall_not_unfoldsForever_iff :
    (∀ ty, r.Occurs ty → ¬ ty.UnfoldsForever r.types) ↔
      ∀ id, r.Reaches id → ¬ TransGen r.types.Expands id id := by
  constructor
  · intro h id hid hcycle
    obtain ⟨args, hargs⟩ := exists_occurs_of_reaches hid
    exact h _ hargs (TypeTable.unfoldsForever_of_expands hcycle args)
  · intro h ty hty hforever
    obtain ⟨first, id, hfirst, hid, hcycle⟩ := TypeTable.unfoldsForever_iff.mp hforever
    have hreached := reaches_of_occurs hty hfirst.mem_mentions
    exact h id (reaches_of_expansions hreached hid) hcycle

/-- Where no reached alias brings a parameter to its head, the search for cycles sees all there is
    to see. -/
theorem WellFormed.expands_acyclic (h : r.WellFormed)
    (hnone : ∀ id a, r.Reaches id → r.types.get id = .ok (.alias a) →
      ∀ param, ¬ a.ty.Surfaces r.types param) {id : DefId} (hid : r.Reaches id) :
    ¬ TransGen r.types.Expands id id := by
  have hstep : ∀ {current next}, r.Reaches current → r.types.Expands current next →
      r.types.HeadStep current next := fun {current next} hcurrent =>
    (TypeTable.expands_iff_headStep fun target a htarget =>
      hnone target a (reaches_of_headStep hcurrent htarget)).mp
  have hsteps : ∀ {other}, TransGen r.types.Expands id other →
      TransGen r.types.HeadStep id other := by
    intro other hother
    induction hother with
    | single hlast => exact .single (hstep hid hlast)
    | tail hbefore hlast ih =>
      exact .tail ih (hstep (reaches_of_expansions hid hbefore.to_reflTransGen) hlast)
  exact fun hcycle => h.acyclic id hid (hsteps hcycle)

end Occurrences

end Registry

namespace Bindings

/-- **What generation says about unfolding.** The types of a registry that generates are never
    unfolded forever exactly if no reached alias comes back to itself by way of arguments; and none
    does if no reached alias brings a parameter to its head, since the search for cycles has seen
    all other ways. -/
theorem generated_types_unfold {r : Registry} {options : Options} {b : Bindings}
    (h : generate r options = .ok b) :
    ((∀ ty, r.Occurs ty → ¬ ty.UnfoldsForever r.types) ↔
      ∀ id, r.Reaches id → ¬ TransGen r.types.Expands id id) ∧
    ((∀ id a, r.Reaches id → r.types.get id = .ok (.alias a) →
        ∀ param, ¬ a.ty.Surfaces r.types param) →
      ∀ ty, r.Occurs ty → ¬ ty.UnfoldsForever r.types) := by
  have hr : r.WellFormed := wellFormed_of_generate h
  refine ⟨Registry.forall_not_unfoldsForever_iff, fun hnone => ?_⟩
  exact Registry.forall_not_unfoldsForever_iff.mpr fun id hid => hr.expands_acyclic hnone hid

/-- A registry whose only result is a list of tags, or null. The alias of the list has the list as
    an argument of another alias, which brings it to its head. -/
def orchard : Registry where
  types :=
    { slots := [
        .defined (.alias
          { name := "Maybe", generics := ["T"], ty := .union [.generic "T", .null] }),
        .defined (.alias { name := "Tags", ty := .named 0 [.array .string] }),
        .defined (.struct { name := "LabelParameters" })] }
  methods := [
    { params := 2
      returns := .reference 1
      name := "label"
      doc := none
      usesSession := false
      sessionOptional := false
      usesCredentials := false
      rateLimit := 0 }]

theorem generated_types_unfold_orchard :
    ∃ b, generate orchard {} = .ok b ∧
      ∀ ty, orchard.Occurs ty → ¬ ty.UnfoldsForever orchard.types := by
  obtain ⟨b, hb⟩ : ∃ b, generate orchard {} = .ok b := ⟨_, rfl⟩
  have hlt : ∀ {current next}, orchard.types.Expands current next → next < current := by
    rintro current next ⟨a, ha, hnext⟩
    have hmentions := hnext.mem_mentions
    match current with
    | 0 =>
      cases ha
      exact absurd hmentions List.not_mem_nil
    | 1 =>
      cases ha
      obtain rfl := List.mem_singleton.mp hmentions
      exact Nat.zero_lt_one
    | 2 => cases ha
    | _ + 3 => cases ha
  have hacyclic : ∀ {id other}, TransGen orchard.types.Expands id other → other < id := by
    intro id other h
    induction h with
    | single hstep => exact hlt hstep
    | tail _ hstep ih => exact (hlt hstep).trans ih
  exact ⟨b, hb, (generated_types_unfold hb).1.mpr fun id _ hcycle => (hacyclic hcycle).false⟩

/-- A registry whose only result is an alias that stands for itself: its body is a reference to an
    alias that stands for its argument, and the argument is the first alias again. -/
def mirror : Registry where
  types :=
    { slots := [
        .defined (.alias { name := "Id", generics := ["T"], ty := .generic "T" }),
        .defined (.alias { name := "A", ty := .named 0 [.reference 1] }),
        .defined (.struct { name := "LookParameters" })] }
  methods := [
    { params := 2
      returns := .reference 1
      name := "look"
      doc := none
      usesSession := false
      sessionOptional := false
      usesCredentials := false
      rateLimit := 0 }]

/-- **The search for cycles does not see every cycle**: a registry that generates, with a result
    that is unfolded forever. Every value that is checked against it goes too deep. -/
theorem generate_admits_endless_unfolding :
    (¬ ∀ r options b, generate r options = .ok b →
      ∀ ty, r.Occurs ty → ¬ ty.UnfoldsForever r.types) ∧
    ∀ left v path, Wire.check mirror.types left (.reference 1) v path = .error (.tooDeep path) := by
  constructor
  · intro h
    obtain ⟨b, hb⟩ : ∃ b, generate mirror {} = .ok b := ⟨_, rfl⟩
    have hoccurs : mirror.Occurs (.reference 1) :=
      Or.inl ⟨.reference 1, Or.inl ⟨_, List.mem_singleton_self _, by simp [Method.expressions]⟩,
        by simp [Ty.reference]⟩
    have hleads : Ty.LeadsTo mirror.types (.named 0 [.reference 1]) 1 :=
      .argument 0 _ _ "T" (.reference 1) 1 rfl (.generic "T") rfl (.named 1 [])
    have hcycle : TransGen mirror.types.Expands 1 1 := .single ⟨_, rfl, hleads⟩
    exact h mirror {} b hb _ hoccurs (TypeTable.unfoldsForever_of_expands hcycle [])
  · intro left v path
    induction left using Nat.twoStepInduction with
    | zero => rfl
    | one => rfl
    | more left ih _ => exact ih

end Bindings

end WireContract
