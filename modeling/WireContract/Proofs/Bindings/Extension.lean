import WireContract.Proofs.Bindings.Embedding
import WireContract.Proofs.Registration

/-!
# Client code behind one more method

A method that is registered brings one struct to the table and one method behind the others. What
was generated before is generated again: the wrappers stand in front of the new one, and every
declaration is there with the same text, though perhaps in another place, since the new method may
lead to a definition sooner.

That generation succeeds with the new method says little about the registry without it: a type may
have referred to the number that the new struct is given, and to nothing before.

* `WellFormed.of_fewer`: fewer methods need no more than all;
* `generate_of_fewer`: and their client code is part of that of all;
* `agrees_register`: the registry without the method, over the larger table;
* `register_extends`: client code in front of and behind a registration.
-/

namespace WireContract

namespace Registry

variable {r : Registry} {ms : List Method}

/-! ## 1. Fewer methods -/

theorem reaches_of_fewer (h : ms ⊆ r.methods) {id : DefId}
    (hid : Reaches { r with methods := ms } id) : r.Reaches id := by
  induction hid with
  | start id hstart =>
    obtain ⟨m, hm, hid⟩ := List.mem_flatMap.mp hstart
    exact reaches_of_method (h hm) hid
  | next target id _ hnext ih => exact .next target id ih hnext

theorem expresses_of_fewer (h : ms ⊆ r.methods) {ty : Ty}
    (hty : Expresses { r with methods := ms } ty) : r.Expresses ty := by
  rcases hty with ⟨m, hm, hty⟩ | ⟨id, body, hid, hbody, hty⟩
  · exact Or.inl ⟨m, h hm, hty⟩
  · exact Or.inr ⟨id, body, reaches_of_fewer h hid, hbody, hty⟩

/-- **Fewer methods need no more than all.** -/
theorem WellFormed.of_fewer (hr : r.WellFormed) (h : ms ⊆ r.methods) :
    WellFormed { r with methods := ms } where
  parameters m hm := hr.parameters m (h hm)
  defined id hid := hr.defined id (reaches_of_fewer h hid)
  arity target args hwrites := by
    obtain ⟨ty, hty, hpart⟩ := hwrites
    exact hr.arity target args ⟨ty, expresses_of_fewer h hty, hpart⟩
  shape kind elems variadic hwrites := by
    obtain ⟨ty, hty, hpart⟩ := hwrites
    exact hr.shape kind elems variadic ⟨ty, expresses_of_fewer h hty, hpart⟩
  unions hwrites := by
    obtain ⟨ty, hty, hpart⟩ := hwrites
    exact hr.unions ⟨ty, expresses_of_fewer h hty, hpart⟩
  literals values hwrites := by
    obtain ⟨ty, hty, hpart⟩ := hwrites
    exact hr.literals values ⟨ty, expresses_of_fewer h hty, hpart⟩
  constants id e hid := hr.constants id e (reaches_of_fewer h hid)
  acyclic id hid := hr.acyclic id (reaches_of_fewer h hid)

end Registry

namespace Bindings

/-- The text of the wrappers. -/
def wrappersText (b : Bindings) : String := String.intercalate "\n" b.wrappers

/-- A part of a row in front is written in front. -/
theorem intercalate_prefix {separator : List Char} {xs ys : List (List Char)} (h : xs <+: ys) :
    separator.intercalate xs <+: separator.intercalate ys := by
  obtain ⟨zs, rfl⟩ := h
  induction xs with
  | nil => exact List.nil_prefix
  | cons x rest ih =>
    rw [List.cons_append]
    rcases rest with _ | ⟨y, rest⟩
    · rcases zs with _ | ⟨z, zs⟩
      · exact List.prefix_rfl
      · rw [List.nil_append, List.intercalate_cons_cons, List.intercalate_singleton,
          List.append_assoc]
        exact List.prefix_append _ _
    · rw [List.cons_append, List.intercalate_cons_cons, List.intercalate_cons_cons]
      exact (List.prefix_append_right_inj _).mpr ih

theorem wrappersText_prefix {b b' : Bindings} (h : b.wrappers <+: b'.wrappers) :
    b.wrappersText.toList <+: b'.wrappersText.toList := by
  rw [wrappersText, wrappersText, String.toList_intercalate, String.toList_intercalate]
  exact intercalate_prefix (h.map String.toList)

section Fewer

variable {r : Registry} {options : Options}

/-- **The client code of the first methods is part of that of all.** -/
theorem generate_of_fewer {ms : List Method} (h : ms <+: r.methods) {b b' : Bindings}
    (hb : generate { r with methods := ms } options = .ok b) (hb' : generate r options = .ok b') :
    b.wrappers <+: b'.wrappers ∧ ∀ d ∈ b.declarations, d ∈ b'.declarations := by
  constructor
  · obtain ⟨-, -, rfl⟩ := generate_completes hb
    obtain ⟨-, -, rfl⟩ := generate_completes hb'
    exact h.map _
  · intro d hd
    have hid : r.Reaches d.1 :=
      Registry.reaches_of_fewer h.subset ((mem_declared_iff hb).mp (List.mem_map_of_mem hd))
    obtain ⟨d', hd', hsame⟩ := List.mem_map.mp ((mem_declared_iff hb').mpr hid)
    rw [declarations_eq hb (Nat.le_refl _)] at hd
    have hd'' := hd'
    rw [declarations_eq hb' (Nat.le_refl _)] at hd''
    obtain ⟨id, -, rfl⟩ := List.mem_map.mp hd
    obtain ⟨other, -, rfl⟩ := List.mem_map.mp hd''
    obtain rfl : other = id := hsame
    exact hd'

end Fewer

/-! ## 2. Registration -/

section Registration

variable {r r' : Registry} {s : Signature} {m : Method} {options : Options}

/-- What is found before a registration is found behind it. -/
theorem get_of_register (h : r.register s = .ok (m, r')) {id : DefId} {body : Definition}
    (hbody : r.types.get id = .ok body) : r'.types.get id = .ok body := by
  obtain ⟨-, -, hslots⟩ := Registry.register_yields r s _ h
  exact TypeTable.get_insert_of_get hslots hbody

/-- A registration changes what is found under one number only. -/
theorem get_register_of_ne (h : r.register s = .ok (m, r')) {id : DefId} (hid : id ≠ m.params) :
    r'.types.get id = r.types.get id := by
  obtain ⟨rfl, -, hslots⟩ := Registry.register_yields r s _ h
  exact TypeTable.get_insert_of_ne hslots hid

/-- The registry without the new method, over the larger table. -/
theorem agrees_register (h : r.register s = .ok (m, r')) (hfree : ¬ r.Reaches m.params) :
    r.Agrees { r' with methods := r.methods } where
  methods := rfl
  get _ hid := get_register_of_ne h fun heq => hfree (heq ▸ hid)

/-- If it generates, it is embedded in the larger table as it stands. -/
theorem embeds_register (h : r.register s = .ok (m, r')) :
    r.Embeds id { r' with methods := r.methods } where
  methods := by
    have hid : ∀ m ∈ r.methods, Method.rename id m = m := fun m _ => by
      rw [Method.rename, Ty.rename_id, id]
    exact (List.map_congr_left hid).trans (List.map_id' _) |>.symm
  get other _ body hbody := by
    rw [Definition.rename_id]
    exact get_of_register h hbody
  injective _ _ _ _ heq := heq

/-- **What was generated before a registration is generated again behind it**, if anything is: the
    wrappers in front, and every declaration with the same text. And it could be generated before
    exactly if no type referred ahead, to the number that the new parameters are given. -/
theorem register_extends (h : r.register s = .ok (m, r')) {b' : Bindings}
    (hb' : generate r' options = .ok b') :
    ((∃ b, generate r options = .ok b) ↔ ¬ r.Reaches m.params) ∧
    ∀ b, generate r options = .ok b → b.wrappers <+: b'.wrappers ∧
      b.wrappersText.toList <+: b'.wrappersText.toList ∧
      ∀ d ∈ b.declarations, d ∈ b'.declarations := by
  obtain ⟨rfl, hmethods, -⟩ := Registry.register_yields r s _ h
  have hmethods : r.methods <+: r'.methods := hmethods ▸ List.prefix_append _ _
  refine ⟨⟨fun hok hreached => ?_, fun hfree => ?_⟩, fun b hb => ?_⟩
  · obtain ⟨body, hbody⟩ := (generate_isOk_iff.mp hok).2.defined _ hreached
    exact absurd (TypeTable.lt_size_of_get hbody) (Nat.lt_irrefl _)
  · have hr' : Registry.WellFormed { r' with methods := r.methods } :=
      (wellFormed_of_generate hb').of_fewer hmethods.subset
    exact generate_isOk_iff.mpr
      ⟨fits_of_generate hb', (agrees_register h hfree).symm.wellFormed hr'⟩
  · have hsame := generate_of_embeds (embeds_register h) hb
    obtain ⟨hwrappers, hdeclarations⟩ := generate_of_fewer hmethods hsame hb'
    refine ⟨hwrappers, wrappersText_prefix hwrappers, fun d hd => hdeclarations d ?_⟩
    exact List.mem_map.mpr ⟨d, hd, rfl⟩

end Registration

/-- A method that lists the identifiers of the trees in a page, to be registered behind the one of
    the forest. -/
def listing : Signature :=
  { name := "list"
    params := [{ name := "page", ty := .named 3 [.reference 0] }]
    returns := .array (.reference 1) }

theorem register_extends_forest :
    ∃ m r' b b', forest.register listing = .ok (m, r') ∧ generate r' {} = .ok b' ∧
      generate forest {} = .ok b ∧ ¬ forest.Reaches 5 ∧ b.wrappers <+: b'.wrappers ∧
      ∀ d ∈ b.declarations, d ∈ b'.declarations := by
  obtain ⟨m, r', b, b', h, hb', hb, hparams⟩ : ∃ m r' b b',
      forest.register listing = .ok (m, r') ∧ generate r' {} = .ok b' ∧
        generate forest {} = .ok b ∧ m.params = 5 := ⟨_, _, _, _, rfl, rfl, rfl, rfl⟩
  obtain ⟨hiff, hparts⟩ := register_extends h hb'
  obtain ⟨hwrappers, -, hdeclarations⟩ := hparts b hb
  exact ⟨m, r', b, b', h, hb', hb, hparams ▸ hiff.mp ⟨b, hb⟩, hwrappers, hdeclarations⟩

/-- A registry whose only method has a result of a type that is not there yet. -/
def early : Registry where
  types := { slots := [.defined (.struct { name := "FParameters" })] }
  methods := [
    { params := 0
      returns := .reference 1
      name := "f"
      doc := none
      usesSession := false
      sessionOptional := false
      usesCredentials := false
      rateLimit := 0 }]

/-- **A registration can make generation succeed**: where a type refers ahead, to the number that
    the new parameters are given, nothing is generated before and everything behind. -/
theorem generate_only_behind_registration :
    ¬ ∀ (r : Registry) (s : Signature) (m : Method) (r' : Registry) (options : Options)
        (b' : Bindings), r.register s = .ok (m, r') → generate r' options = .ok b' →
      ∃ b, generate r options = .ok b := by
  intro h
  obtain ⟨b, hb⟩ := h early { name := "g", returns := .null } _ _ {} _ rfl rfl
  have hfails : generate early {} = .error (.schema (.unknownDefinition 1)) := rfl
  rw [hfails] at hb
  cases hb

end Bindings

end WireContract
