import Mathlib.Data.List.Forall2
import Mathlib.Data.List.Perm.Subperm
import WireContract.Proofs.Json.DistinctKeys
import WireContract.Proofs.Json.NumberValue

/-!
# Equal values

Two values are equal if they differ in the order of keys at most, or in the sign of a zero. For
values that have each key of an object once this is an equivalence, and an object is its table: what
counts is what is found under each key.

* `Entries.Related`: two tables that have related values under the same keys;
* `beq_iff_equalParts`: equal values are of one kind and have equal parts;
* `beq_object_iff_related`: objects that have each key once are equal key by key;
* `KeysDistinct.beq_refl`, `KeysDistinct.beq_symm`, `KeysDistinct.beq_trans`: an equivalence;
* `Alike`: equal values that have each key once;
* `outline`: what is left of a value without its scalars, which shows the order of its keys.
-/

namespace WireContract

/-! ## 1. Tables -/

namespace Entries

variable {α β γ : Type}

/-- Under every key both tables have a value, and the two are related, or neither has one. -/
structure Related (rel : α → β → Prop) (es : Entries α) (others : Entries β) : Prop where
  found : ∀ key v, es.get? key = some v → ∃ w, others.get? key = some w ∧ rel v w
  missing : ∀ key, es.get? key = none → others.get? key = none

namespace Related

variable {rel : α → β → Prop} {es : Entries α} {others : Entries β}

theorem flip (h : Related rel es others) : Related (fun w v => rel v w) others es where
  found key w hw := by
    cases hv : es.get? key with
    | none => cases (h.missing key hv).symm.trans hw
    | some v =>
      obtain ⟨w', hw', hrel⟩ := h.found key v hv
      obtain rfl : w = w' := Option.some.inj (hw.symm.trans hw')
      exact ⟨v, rfl, hrel⟩
  missing key hw := by
    cases hv : es.get? key with
    | none => rfl
    | some v =>
      obtain ⟨w, hw', -⟩ := h.found key v hv
      cases hw.symm.trans hw'

theorem mono {rel' : α → β → Prop} (h : Related rel es others)
    (hrel : ∀ key v w, (key, v) ∈ es → (key, w) ∈ others → rel v w → rel' v w) :
    Related rel' es others where
  found key v hv := by
    obtain ⟨w, hw, hvw⟩ := h.found key v hv
    exact ⟨w, hw, hrel key v w (mem_of_get? hv) (mem_of_get? hw) hvw⟩
  missing := h.missing

theorem comp {rel' : β → γ → Prop} {last : Entries γ} (h : Related rel es others)
    (h' : Related rel' others last) : Related (Relation.Comp rel rel') es last where
  found key v hv := by
    obtain ⟨w, hw, hvw⟩ := h.found key v hv
    obtain ⟨x, hx, hwx⟩ := h'.found key w hw
    exact ⟨x, hx, w, hvw, hwx⟩
  missing key hv := h'.missing key (h.missing key hv)

theorem mem_keys_iff (h : Related rel es others) (key : String) :
    key ∈ es.keys ↔ key ∈ others.keys := by
  rw [← not_iff_not, ← get?_eq_none_iff, ← get?_eq_none_iff]
  exact ⟨h.missing key, h.flip.missing key⟩

/-- Everything in the second table has its like in the first. -/
theorem exists_mem (h : Related rel es others) (hkeys : others.keys.Nodup) {e : String × β}
    (he : e ∈ others) : ∃ v, (e.1, v) ∈ es ∧ rel v e.2 := by
  obtain ⟨v, hv, hrel⟩ := h.flip.found e.1 e.2 (get?_of_mem hkeys he)
  exact ⟨v, mem_of_get? hv, hrel⟩

/-- Tables with the same keys, each once, are as long as each other. -/
theorem length_eq (h : Related rel es others) (hkeys : es.keys.Nodup)
    (hkeys' : others.keys.Nodup) : es.length = others.length := by
  have hperm := (List.perm_ext_iff_of_nodup hkeys hkeys').mpr h.mem_keys_iff
  simpa [keys] using hperm.length_eq

end Related

/-- Values in pairs under the same keys are related key by key. -/
theorem related_of_zip {rel : α → β → Prop} {es : Entries α} {others : Entries β}
    (hkeys : others.keys = es.keys) (h : ∀ p ∈ es.zip others, rel p.1.2 p.2.2) :
    Related rel es others := by
  induction es generalizing others with
  | nil =>
    obtain rfl : others = [] := List.map_eq_nil_iff.mp hkeys
    constructor
    · intro key v hv
      cases hv
    · exact fun _ _ => rfl
  | cons e rest ih =>
    cases others with
    | nil => cases hkeys
    | cons e' others =>
      obtain ⟨k, v⟩ := e
      obtain ⟨k', w⟩ := e'
      obtain ⟨rfl, hrest⟩ : k' = k ∧ keys others = keys rest := List.cons.inj hkeys
      rw [List.zip_cons_cons, List.forall_mem_cons] at h
      have hrelated := ih hrest h.2
      constructor
      · intro key x hx
        by_cases hkey : key = k'
        · subst hkey
          rw [get?_cons_self] at hx ⊢
          exact ⟨w, rfl, Option.some.inj hx ▸ h.1⟩
        · rw [get?_cons_of_ne hkey] at hx ⊢
          exact hrelated.found key x hx
      · intro key hnone
        by_cases hkey : key = k'
        · subst hkey
          rw [get?_cons_self] at hnone
          cases hnone
        · rw [get?_cons_of_ne hkey] at hnone ⊢
          exact hrelated.missing key hnone

end Entries

namespace Json

/-! ## 2. Equality of parts -/

theorem beq_array_iff {items others : List Json} :
    (Json.array items == .array others) = true ↔
      List.Forall₂ (fun v w => (v == w) = true) items others := by
  change sameItems items others = true ↔ _
  induction items generalizing others with
  | nil => cases others <;> simp [sameItems]
  | cons v rest ih =>
    cases others with
    | nil => simp [sameItems]
    | cons w more =>
      rw [sameItems, Bool.and_eq_true, ih, List.forall₂_cons]
      rfl

theorem beq_object_iff {members others : Entries Json} :
    (Json.object members == .object others) = true ↔ members.length = others.length ∧
      ∀ e ∈ members, ∃ w, others.get? e.1 = some w ∧ (e.2 == w) = true := by
  have hmembers : ∀ members : Entries Json, sameMembers members others = true ↔
      ∀ e ∈ members, ∃ w, others.get? e.1 = some w ∧ (e.2 == w) = true := by
    intro members
    induction members with
    | nil => simp [sameMembers]
    | cons e rest ih =>
      obtain ⟨key, v⟩ := e
      rw [sameMembers, Bool.and_eq_true, ih, List.forall_mem_cons]
      refine and_congr_left' ?_
      cases others.get? key with
      | none => simp
      | some w => exact ⟨fun h => ⟨w, rfl, h⟩, fun ⟨_, heq, h⟩ => Option.some.inj heq ▸ h⟩
  change (members.length == others.length && sameMembers members others) = true ↔ _
  rw [Bool.and_eq_true, beq_iff_eq, hmembers]

/-- **Objects that have each key once are equal if under each key equal values are found**, or none
    in both. -/
theorem beq_object_iff_related {members others : Entries Json} (h : members.keys.Nodup)
    (h' : others.keys.Nodup) :
    (Json.object members == .object others) = true ↔
      Entries.Related (fun v w => (v == w) = true) members others := by
  rw [beq_object_iff]
  constructor
  · rintro ⟨hlength, hmembers⟩
    refine ⟨fun key v hv => hmembers _ (Entries.mem_of_get? hv), fun key hnone => ?_⟩
    have hsubset : members.keys ⊆ others.keys := by
      intro other hother
      obtain ⟨e, he, rfl⟩ := List.mem_map.mp hother
      obtain ⟨w, hw, -⟩ := hmembers e he
      exact List.mem_map_of_mem (f := (·.1)) (Entries.mem_of_get? hw)
    -- As many keys on both sides, so that the second has no others either.
    have hperm : members.keys.Perm others.keys :=
      (List.subperm_of_subset h hsubset).perm_of_length_le (by simp [Entries.keys, hlength])
    rw [Entries.get?_eq_none_iff] at hnone ⊢
    exact fun hmem => hnone (hperm.mem_iff.mpr hmem)
  · intro hrelated
    exact ⟨hrelated.length_eq h h', fun e he => hrelated.found e.1 e.2 (Entries.get?_of_mem h he)⟩

/-- Values of one kind with equal parts. -/
inductive EqualParts : Json → Json → Prop where
  | null : EqualParts .null .null
  | bool (b : Bool) : EqualParts (.bool b) (.bool b)
  | number (n k : Json.Number) (h : n.same k = true) : EqualParts (.number n) (.number k)
  | string (s : String) : EqualParts (.string s) (.string s)
  | array (items others : List Json)
      (h : List.Forall₂ (fun v w => (v == w) = true) items others) :
      EqualParts (.array items) (.array others)
  | object (members others : Entries Json) (h : (Json.object members == .object others) = true) :
      EqualParts (.object members) (.object others)

/-- **Equal values are of one kind and have equal parts.** -/
theorem beq_iff_equalParts {v w : Json} : (v == w) = true ↔ EqualParts v w := by
  constructor
  · intro h
    cases v with
    | null => cases w <;> first | exact .null | exact (Bool.false_ne_true h).elim
    | bool b =>
      cases w with
      | bool c =>
        have hbool : (b == c) = true := h
        exact beq_iff_eq.mp hbool ▸ .bool b
      | _ => exact (Bool.false_ne_true h).elim
    | number n =>
      cases w with
      | number k => exact .number n k h
      | _ => exact (Bool.false_ne_true h).elim
    | string s =>
      cases w with
      | string t =>
        have hstring : (s == t) = true := h
        exact beq_iff_eq.mp hstring ▸ .string s
      | _ => exact (Bool.false_ne_true h).elim
    | array items =>
      cases w with
      | array others => exact .array items others (beq_array_iff.mp h)
      | _ => exact (Bool.false_ne_true h).elim
    | object members =>
      cases w with
      | object others => exact .object members others h
      | _ => exact (Bool.false_ne_true h).elim
  · intro h
    cases h with
    | null => rfl
    | bool b => exact beq_self_eq_true b
    | number n k h => exact h
    | string s => exact beq_self_eq_true s
    | array items others h => exact beq_array_iff.mpr h
    | object members others h => exact h

/-! ## 3. An equivalence -/

section Pairs

variable {α β γ : Type} {r : α → β → Prop} {xs : List α} {ys : List β}

theorem forall₂_mono {rel : α → β → Prop} (h : List.Forall₂ r xs ys)
    (hrel : ∀ x y, x ∈ xs → y ∈ ys → r x y → rel x y) : List.Forall₂ rel xs ys := by
  refine List.forall₂_iff_zip.mpr ⟨h.length_eq, fun {x y} hmem => ?_⟩
  obtain ⟨hx, hy⟩ := List.of_mem_zip hmem
  exact hrel x y hx hy (List.forall₂_zip h hmem)

theorem exists_mem_of_forall₂ (h : List.Forall₂ r xs ys) {y : β} (hy : y ∈ ys) :
    ∃ x ∈ xs, r x y := by
  induction h with
  | nil => cases hy
  | cons hfirst _ ih =>
    rcases List.mem_cons.mp hy with rfl | hy
    · exact ⟨_, List.mem_cons_self, hfirst⟩
    · obtain ⟨x, hx, hxy⟩ := ih hy
      exact ⟨x, List.mem_cons_of_mem _ hx, hxy⟩

theorem forall₂_trans {r' : β → γ → Prop} {rel : α → γ → Prop} {zs : List γ}
    (h : List.Forall₂ r xs ys)
    (h' : List.Forall₂ r' ys zs) (hrel : ∀ x y z, y ∈ ys → r x y → r' y z → rel x z) :
    List.Forall₂ rel xs zs := by
  induction h generalizing zs with
  | nil =>
    cases h'
    exact .nil
  | cons hfirst _ ih =>
    cases h' with
    | cons hfirst' hrest' =>
      refine .cons (hrel _ _ _ List.mem_cons_self hfirst hfirst') (ih hrest' ?_)
      exact fun x y z hy => hrel x y z (List.mem_cons_of_mem _ hy)

end Pairs

namespace KeysDistinct

variable {u v w : Json}

/-- A value equals itself. -/
theorem beq_refl (h : v.KeysDistinct) : (v == v) = true := by
  induction h with
  | null => rfl
  | bool b => exact beq_self_eq_true b
  | number n => exact Number.same_iff.mpr ⟨rfl, rfl⟩
  | string s => exact beq_self_eq_true s
  | array items h ih => exact beq_array_iff.mpr (List.forall₂_same.mpr ih)
  | object members hkeys h ih =>
    exact beq_object_iff.mpr ⟨rfl, fun e he => ⟨e.2, Entries.get?_of_mem hkeys he, ih e he⟩⟩

/-- Equality goes both ways. -/
theorem beq_symm (hv : v.KeysDistinct) (hw : w.KeysDistinct) (h : (v == w) = true) :
    (w == v) = true := by
  induction hv generalizing w with
  | null | bool | string =>
    cases beq_iff_equalParts.mp h
    exact h
  | number n =>
    cases beq_iff_equalParts.mp h with
    | number _ k h =>
      obtain ⟨hkind, hvalue⟩ := Number.same_iff.mp h
      exact Number.same_iff.mpr ⟨hkind.symm, hvalue.symm⟩
  | array items hitems ih =>
    cases beq_iff_equalParts.mp h with
    | array _ others heach =>
      cases hw with
      | array _ hothers =>
        rw [beq_array_iff]
        exact (forall₂_mono heach fun v w hv hw => ih v hv (hothers w hw)).flip
  | object members hkeys hvalues ih =>
    cases beq_iff_equalParts.mp h with
    | object _ others h =>
      obtain ⟨hkeys', hvalues'⟩ := keysDistinct_object_iff.mp hw
      rw [beq_object_iff_related hkeys hkeys'] at h
      rw [beq_object_iff_related hkeys' hkeys]
      exact h.flip.mono fun key w v hw hv hvw => ih _ hv (hvalues' _ hw) hvw

/-- What equals a value equals what the value equals. -/
theorem beq_trans (hv : v.KeysDistinct) (h : (u == v) = true) (h' : (v == w) = true) :
    (u == w) = true := by
  induction hv generalizing u w with
  | null | bool | string =>
    cases beq_iff_equalParts.mp h
    exact h'
  | number n =>
    cases beq_iff_equalParts.mp h with
    | number m _ h =>
      cases beq_iff_equalParts.mp h' with
      | number _ k h' =>
        obtain ⟨hkind, hvalue⟩ := Number.same_iff.mp h
        obtain ⟨hkind', hvalue'⟩ := Number.same_iff.mp h'
        exact Number.same_iff.mpr ⟨hkind.trans hkind', hvalue.trans hvalue'⟩
  | array items hitems ih =>
    cases beq_iff_equalParts.mp h with
    | array firsts _ heach =>
      cases beq_iff_equalParts.mp h' with
      | array _ others heach' =>
        rw [beq_array_iff]
        exact forall₂_trans heach heach' fun u v w hv => ih v hv
  | object members hkeys hvalues ih =>
    cases beq_iff_equalParts.mp h with
    | object firsts _ h =>
      cases beq_iff_equalParts.mp h' with
      | object _ others h' =>
        obtain ⟨hlength, hmembers⟩ := beq_object_iff.mp h
        obtain ⟨hlength', hmembers'⟩ := beq_object_iff.mp h'
        refine beq_object_iff.mpr ⟨hlength.trans hlength', fun e he => ?_⟩
        obtain ⟨x, hx, hex⟩ := hmembers e he
        obtain ⟨y, hy, hxy⟩ := hmembers' _ (Entries.mem_of_get? hx)
        exact ⟨y, hy, ih _ (Entries.mem_of_get? hx) hex hxy⟩

end KeysDistinct

/-! ## 4. Values alike -/

/-- Equal values that have each key of an object once. -/
structure Alike (v w : Json) : Prop where
  left : v.KeysDistinct
  right : w.KeysDistinct
  equal : (v == w) = true

namespace Alike

variable {u v w : Json}

theorem symm (h : Alike v w) : Alike w v := ⟨h.right, h.left, h.left.beq_symm h.right h.equal⟩

/-- What equals the one equals the other. -/
theorem beq_of_beq (h : Alike v w) (huv : (u == v) = true) : (u == w) = true :=
  h.left.beq_trans huv h.equal

theorem isNull_eq (h : Alike v w) : v.isNull = w.isNull := by
  cases beq_iff_equalParts.mp h.equal <;> rfl

/-- What is like an array is an array of as many items that are alike. -/
theorem exists_array {items : List Json} (h : Alike (.array items) w) :
    ∃ others, w = .array others ∧ List.Forall₂ Alike items others := by
  obtain ⟨hv, hw, hequal⟩ := h
  cases beq_iff_equalParts.mp hequal with
  | array _ others heach =>
    cases hv with
    | array _ hitems =>
      cases hw with
      | array _ hothers =>
        have halike := forall₂_mono heach fun v w hv hw => Alike.mk (hitems v hv) (hothers w hw)
        exact ⟨others, rfl, halike⟩

/-- What is like an object is an object with values that are alike under the same keys. -/
theorem exists_object {members : Entries Json} (h : Alike (.object members) w) :
    ∃ others : Entries Json, w = .object others ∧ members.keys.Nodup ∧ others.keys.Nodup ∧
      members.Related Alike others := by
  obtain ⟨hv, hw, hequal⟩ := h
  cases beq_iff_equalParts.mp hequal with
  | object _ others _ =>
    obtain ⟨hkeys, hvalues⟩ := keysDistinct_object_iff.mp hv
    obtain ⟨hkeys', hvalues'⟩ := keysDistinct_object_iff.mp hw
    refine ⟨others, rfl, hkeys, hkeys', ?_⟩
    exact ((beq_object_iff_related hkeys hkeys').mp hequal).mono
      fun key v w hv hw hvw => ⟨hvalues _ hv, hvalues' _ hw, hvw⟩

end Alike

/-! ## 5. The order of keys -/

mutual

/-- What is left of a value without its scalars: in place of each there is null. -/
def outline : Json → Json
  | .array items => .array (outlineItems items)
  | .object members => .object (outlineMembers members)
  | _ => .null

def outlineItems : List Json → List Json
  | [] => []
  | v :: rest => outline v :: outlineItems rest

def outlineMembers : List (String × Json) → List (String × Json)
  | [] => []
  | (key, v) :: rest => (key, outline v) :: outlineMembers rest

end

theorem outline_array (items : List Json) :
    (Json.array items).outline = .array (items.map outline) := by
  rw [outline]
  congr 1
  induction items with
  | nil => rfl
  | cons v rest ih => rw [outlineItems, ih, List.map_cons]

theorem outline_object (members : Entries Json) :
    (Json.object members).outline = .object (members.map fun e => (e.1, e.2.outline)) := by
  rw [outline]
  congr 1
  induction members with
  | nil => rfl
  | cons e rest ih => rw [outlineMembers, ih, List.map_cons]

end Json

end WireContract
