import WireContract.Proofs.Type.Fields
import WireContract.Proofs.Wire.Inhabitation

/-!
# Values as they are taken

What is made of a value that a type takes, said without levels: members of an object that the type
does not declare are dropped, defaults are filled in, and everything else stays as it is.

* `TakenAs`: a value and what a type makes of it, along a derivation that the value is an
  inhabitant;
* `MembersTaken`: the same for the members of an object and the fields of a struct;
* `TakenAs.inhabits`: what is taken is an inhabitant;
* `Declares`: the values that have no member but the declared ones, however deep;
* `TakenAs.declares`: what a type makes of a value is such a value.
-/

namespace WireContract

/-- Whether a field has a place in what is made of an object: it is there, or filled in. -/
def Field.isKept (object : Entries Json) (f : Field) : Bool :=
  object.has f.name || f.default.isSome

namespace Wire

/-! ## 1. The relation -/

/-- What a type makes of a value. Of the members of a union the first one counts that has the value;
    in a struct, a member that is no field is dropped and a field that is not there has its default
    value, as it is written, if it has any. -/
inductive TakenAs (types : TypeTable) : Ty → Json → Json → Prop where
  | primitive (kind : Primitive) (v : Json) (h : isOfKind v kind = true) :
      TakenAs types (.primitive kind) v v
  | any (v : Json) : TakenAs types .any v v
  | generic (name : String) (v : Json) : TakenAs types (.generic name) v v
  | absent : TakenAs types .absent .null .null
  | optionalNull (inner : Ty) : TakenAs types (.optional inner) .null .null
  | optional (inner : Ty) (v out : Json) (hv : v.isNull = false) (h : TakenAs types inner v out) :
      TakenAs types (.optional inner) v out
  | literals (values : List Json) (v : Json) (h : ∃ w ∈ values, (w == v) = true) :
      TakenAs types (.literals values) v v
  | union (before : List Ty) (member : Ty) (after : List Ty) (v out : Json)
      (hfirst : ∀ other ∈ before, ¬ Inhabits types other v) (h : TakenAs types member v out) :
      TakenAs types (.union (before ++ member :: after)) v out
  | array (elem : Ty) (variadic : Bool) (items outs : List Json)
      (hl : outs.length = items.length) (h : ∀ p ∈ items.zip outs, TakenAs types elem p.1 p.2) :
      TakenAs types (.container .array [elem] variadic) (.array items) (.array outs)
  | variadic (elem : Ty) (items outs : List Json) (hl : outs.length = items.length)
      (h : ∀ p ∈ items.zip outs, TakenAs types elem p.1 p.2) :
      TakenAs types (.container .tuple [elem] true) (.array items) (.array outs)
  | tuple (elems : List Ty) (items outs : List Json) (hi : items.length = elems.length)
      (hl : outs.length = items.length)
      (h : ∀ p ∈ elems.zip (items.zip outs), TakenAs types p.1 p.2.1 p.2.2) :
      TakenAs types (.container .tuple elems false) (.array items) (.array outs)
  | record (keyTy valueTy : Ty) (members outs : Entries Json) (hkeys : outs.keys = members.keys)
      (hk : ∀ e ∈ members, KeyFits (Inhabits types) keyTy e.1)
      (h : ∀ p ∈ members.zip outs, TakenAs types valueTy p.1.2 p.2.2) :
      TakenAs types (.container .record [keyTy, valueTy] false) (.object members) (.object outs)
  | struct (target : DefId) (args : List Ty) (s : StructDef) (object out : Entries Json)
      (hs : types.get target = .ok (.struct s))
      (hkeys : out.keys = (s.fields.filter (Field.isKept object)).map (·.name))
      (hp : ∀ f ∈ s.fields, ∀ v w, object.get? f.name = some v → out.get? f.name = some w →
        TakenAs types (f.shape.1.substitute (Ty.bind s.generics args)) v w)
      (hm : ∀ f ∈ s.fields, object.get? f.name = none →
        out.get? f.name = f.default ∧ (f.default.isSome = true ∨ f.isRequired = false)) :
      TakenAs types (.named target args) (.object object) (.object out)
  | enumeration (target : DefId) (args : List Ty) (e : EnumDef) (v : Json)
      (he : types.get target = .ok (.enumeration e)) (h : ∃ m ∈ e.members, (m.value == v) = true) :
      TakenAs types (.named target args) v v
  | alias (target : DefId) (args : List Ty) (a : AliasDef) (v out : Json)
      (ha : types.get target = .ok (.alias a))
      (h : TakenAs types (a.ty.substitute (Ty.bind a.generics args)) v out) :
      TakenAs types (.named target args) v out

/-- What the fields of a struct make of the members of an object: of every field that is there or
    has a default there is one member, in declared order, and there are no others. -/
structure MembersTaken (takes : Ty → Json → Json → Prop) (bindings : Ty.Bindings)
    (fields : List Field) (object out : Entries Json) : Prop where
  keys : out.keys = (fields.filter (Field.isKept object)).map (·.name)
  present : ∀ f ∈ fields, ∀ v w, object.get? f.name = some v → out.get? f.name = some w →
    takes (f.shape.1.substitute bindings) v w
  missing : ∀ f ∈ fields, object.get? f.name = none →
    out.get? f.name = f.default ∧ (f.default.isSome = true ∨ f.isRequired = false)

namespace MembersTaken

variable {takes : Ty → Json → Json → Prop} {bindings : Ty.Bindings} {fields : List Field}
  {object out : Entries Json}

theorem nil : MembersTaken takes bindings [] object [] where
  keys := rfl
  present := fun _ hf => absurd hf List.not_mem_nil
  missing := fun _ hf => absurd hf List.not_mem_nil

/-- A name that no field has is not there. -/
theorem get?_eq_none (h : MembersTaken takes bindings fields object out) {name : String}
    (hname : name ∉ fields.map (·.name)) : out.get? name = none := by
  rw [Entries.get?_eq_none_iff, h.keys]
  intro hmem
  obtain ⟨f, hf, rfl⟩ := List.mem_map.mp hmem
  exact hname (List.mem_map_of_mem (List.mem_filter.mp hf).1)

/-- One more field in front, with what is made of its value, or with its default. -/
theorem written {f : Field} {w : Json} (h : MembersTaken takes bindings fields object out)
    (hf : f.name ∉ fields.map (·.name))
    (hvalue : ∀ v, object.get? f.name = some v → takes (f.shape.1.substitute bindings) v w)
    (hdefault : object.get? f.name = none → f.default = some w) :
    MembersTaken takes bindings (f :: fields) object ((f.name, w) :: out) := by
  have hne : ∀ other ∈ fields, other.name ≠ f.name :=
    fun other hother heq => hf (heq ▸ List.mem_map_of_mem hother)
  constructor
  · have hkept : f.isKept object = true := by
      cases hget : object.get? f.name with
      | some v => simp [Field.isKept, Entries.has, hget]
      | none => simp [Field.isKept, hdefault hget]
    rw [Entries.keys_cons, h.keys, List.filter_cons_of_pos hkept, List.map_cons]
  · refine List.forall_mem_cons.mpr ⟨fun v w' hv hw => ?_, fun other hother v w' hv hw => ?_⟩
    · rw [Entries.get?_cons_self] at hw
      obtain rfl : w = w' := Option.some.inj hw
      exact hvalue v hv
    · rw [Entries.get?_cons_of_ne (hne other hother)] at hw
      exact h.present other hother v w' hv hw
  · refine List.forall_mem_cons.mpr ⟨fun hnone => ?_, fun other hother hnone => ?_⟩
    · rw [Entries.get?_cons_self, hdefault hnone]
      exact ⟨rfl, Or.inl rfl⟩
    · rw [Entries.get?_cons_of_ne (hne other hother)]
      exact h.missing other hother hnone

/-- One more field in front that is left out. -/
theorem left {f : Field} (h : MembersTaken takes bindings fields object out)
    (hf : f.name ∉ fields.map (·.name)) (hnone : object.get? f.name = none)
    (hdefault : f.default = none) (hrequired : f.isRequired = false) :
    MembersTaken takes bindings (f :: fields) object out := by
  constructor
  · have hkept : ¬ f.isKept object = true := by
      simp [Field.isKept, Entries.has, hnone, hdefault]
    rw [h.keys, List.filter_cons_of_neg hkept]
  · refine List.forall_mem_cons.mpr ⟨fun v w hv _ => ?_, h.present⟩
    cases hnone.symm.trans hv
  · refine List.forall_mem_cons.mpr ⟨fun _ => ?_, h.missing⟩
    rw [h.get?_eq_none hf, hdefault]
    exact ⟨rfl, Or.inr hrequired⟩

/-- A field that is there, or has a default, has a value. -/
theorem exists_of_isKept (h : MembersTaken takes bindings fields object out) {f : Field}
    (hf : f ∈ fields) (hkept : f.isKept object = true) : ∃ w, out.get? f.name = some w := by
  refine Option.ne_none_iff_exists'.mp fun hnone => ?_
  rw [Entries.get?_eq_none_iff, h.keys] at hnone
  exact hnone (List.mem_map_of_mem (List.mem_filter.mpr ⟨hf, hkept⟩))

/-- A field that is there has what is made of its value. -/
theorem exists_of_present (h : MembersTaken takes bindings fields object out) {f : Field}
    (hf : f ∈ fields) {v : Json} (hv : object.get? f.name = some v) :
    ∃ w, out.get? f.name = some w ∧ takes (f.shape.1.substitute bindings) v w := by
  have hkept : f.isKept object = true := by simp [Field.isKept, Entries.has, hv]
  obtain ⟨w, hw⟩ := h.exists_of_isKept hf hkept
  exact ⟨w, hw, h.present f hf v w hv hw⟩

/-- **A field that must be there, or has a default, has a value.** -/
theorem exists_of_isRequired (h : MembersTaken takes bindings fields object out) {f : Field}
    (hf : f ∈ fields) (hneeded : f.isRequired = true ∨ f.default.isSome = true) :
    ∃ w, out.get? f.name = some w := by
  cases hget : object.get? f.name with
  | some v =>
    obtain ⟨w, hw, -⟩ := h.exists_of_present hf hget
    exact ⟨w, hw⟩
  | none =>
    obtain ⟨hout, hmissing⟩ := h.missing f hf hget
    have hdefault : f.default.isSome = true := by
      rcases hneeded with hrequired | hdefault
      · exact hmissing.resolve_right (by simp [hrequired])
      · exact hdefault
    rw [hout]
    exact Option.isSome_iff_exists.mp hdefault

end MembersTaken

/-! ## 2. Inhabitants -/

section Lists

variable {α β γ : Type} {xs : List α} {ys : List β} {zs : List γ}

/-- What holds of the first of every pair holds of everything in a list, if the other list is as
    long. -/
theorem forall_mem_of_zip_left {p : α → Prop} (hl : ys.length = xs.length)
    (h : ∀ pair ∈ xs.zip ys, p pair.1) : ∀ x ∈ xs, p x := by
  rw [← List.map_fst_zip (Nat.le_of_eq hl.symm)]
  exact List.forall_mem_map.mpr h

theorem forall_mem_of_zip_right {p : β → Prop} (hl : ys.length = xs.length)
    (h : ∀ pair ∈ xs.zip ys, p pair.2) : ∀ y ∈ ys, p y := by
  rw [← List.map_snd_zip (Nat.le_of_eq hl)]
  exact List.forall_mem_map.mpr h

/-- The same for the first and the second of every triple, and for the first and the third. -/
theorem forall_zip_of_triple_left {p : α × β → Prop} (hl : zs.length = ys.length)
    (h : ∀ triple ∈ xs.zip (ys.zip zs), p (triple.1, triple.2.1)) : ∀ pair ∈ xs.zip ys, p pair := by
  rw [← List.map_fst_zip (Nat.le_of_eq hl.symm), List.zip_map_right]
  exact List.forall_mem_map.mpr h

theorem forall_zip_of_triple_right {p : α × γ → Prop} (hl : zs.length = ys.length)
    (h : ∀ triple ∈ xs.zip (ys.zip zs), p (triple.1, triple.2.2)) : ∀ pair ∈ xs.zip zs, p pair := by
  rw [← List.map_snd_zip (Nat.le_of_eq hl), List.zip_map_right]
  exact List.forall_mem_map.mpr h

end Lists

section Inhabitants

variable {types : TypeTable}

/-- **What is taken is an inhabitant.** -/
theorem TakenAs.inhabits {ty : Ty} {v out : Json} (h : TakenAs types ty v out) :
    Inhabits types ty v := by
  induction h with
  | primitive kind v h => exact inhabits_primitive_iff.mpr h
  | any v => exact .any v
  | generic name v => exact .generic name v
  | absent => exact .absent
  | optionalNull inner => exact .optionalNull inner
  | optional inner v out hv h ih => exact .optional inner v ih
  | literals values v h => exact .literals values v h
  | union before member after v out hfirst h ih =>
    exact .union _ member v (List.mem_append_right _ List.mem_cons_self) ih
  | array elem variadic items outs hl h ih =>
    exact .array elem variadic items (forall_mem_of_zip_left hl ih)
  | variadic elem items outs hl h ih =>
    exact .variadic elem items (forall_mem_of_zip_left hl ih)
  | tuple elems items outs hi hl h ih =>
    exact .tuple elems items hi (forall_zip_of_triple_left hl ih)
  | record keyTy valueTy members outs hkeys hk h ih =>
    have hl : outs.length = members.length := by
      simpa [Entries.keys] using congrArg List.length hkeys
    have hvalues : ∀ e ∈ members, Inhabits types valueTy e.2 := forall_mem_of_zip_left hl ih
    exact inhabits_record_iff.mpr ⟨members, rfl, fun e he => ⟨hk e he, hvalues e he⟩⟩
  | struct target args s object out hs hkeys hp hm ih =>
    have htaken : MembersTaken (fun ty v _ => Inhabits types ty v) (Ty.bind s.generics args)
        s.fields object out := ⟨hkeys, ih, hm⟩
    refine .struct target args s object hs (fun f hf v hv => ?_) fun f hf hnone => ?_
    · obtain ⟨w, -, h⟩ := htaken.exists_of_present hf hv
      exact h
    · exact (hm f hf hnone).2
  | enumeration target args e v he h => exact .enumeration target args e v he h
  | «alias» target args a v out ha h ih => exact .alias target args a v ha ih

end Inhabitants

/-! ## 3. Nothing that is not declared -/

/-- The values in which every member of an object is declared, however deep. The value of a field
    may be its default as it is written; what is inside a value of any type, a literal or a member
    of an enumeration is not looked at. -/
inductive Declares (types : TypeTable) : Ty → Json → Prop where
  | primitive (kind : Primitive) (v : Json) (h : isOfKind v kind = true) :
      Declares types (.primitive kind) v
  | any (v : Json) : Declares types .any v
  | generic (name : String) (v : Json) : Declares types (.generic name) v
  | absent : Declares types .absent .null
  | optionalNull (inner : Ty) : Declares types (.optional inner) .null
  | optional (inner : Ty) (v : Json) (h : Declares types inner v) :
      Declares types (.optional inner) v
  | literals (values : List Json) (v : Json) (h : ∃ w ∈ values, (w == v) = true) :
      Declares types (.literals values) v
  | union (members : List Ty) (member : Ty) (v : Json) (hm : member ∈ members)
      (h : Declares types member v) : Declares types (.union members) v
  | array (elem : Ty) (variadic : Bool) (items : List Json)
      (h : ∀ v ∈ items, Declares types elem v) :
      Declares types (.container .array [elem] variadic) (.array items)
  | variadic (elem : Ty) (items : List Json) (h : ∀ v ∈ items, Declares types elem v) :
      Declares types (.container .tuple [elem] true) (.array items)
  | tuple (elems : List Ty) (items : List Json) (hl : items.length = elems.length)
      (h : ∀ p ∈ elems.zip items, Declares types p.1 p.2) :
      Declares types (.container .tuple elems false) (.array items)
  | record (keyTy valueTy : Ty) (members : Entries Json)
      (hk : ∀ key ∈ members.keys, KeyFits (Inhabits types) keyTy key)
      (h : ∀ e ∈ members, Declares types valueTy e.2) :
      Declares types (.container .record [keyTy, valueTy] false) (.object members)
  | struct (target : DefId) (args : List Ty) (s : StructDef) (object : Entries Json)
      (hs : types.get target = .ok (.struct s))
      (hkeys : ∀ key ∈ object.keys, ∃ f ∈ s.fields, f.name = key)
      (hp : ∀ f ∈ s.fields, ∀ v, object.get? f.name = some v → f.default ≠ some v →
        Declares types (f.shape.1.substitute (Ty.bind s.generics args)) v) :
      Declares types (.named target args) (.object object)
  | enumeration (target : DefId) (args : List Ty) (e : EnumDef) (v : Json)
      (he : types.get target = .ok (.enumeration e)) (h : ∃ m ∈ e.members, (m.value == v) = true) :
      Declares types (.named target args) v
  | alias (target : DefId) (args : List Ty) (a : AliasDef) (v : Json)
      (ha : types.get target = .ok (.alias a))
      (h : Declares types (a.ty.substitute (Ty.bind a.generics args)) v) :
      Declares types (.named target args) v

/-- **What a type makes of a value has no member but the declared ones.** -/
theorem TakenAs.declares {types : TypeTable} {ty : Ty} {v out : Json}
    (h : TakenAs types ty v out) : Declares types ty out := by
  induction h with
  | primitive kind v h => exact .primitive kind v h
  | any v => exact .any v
  | generic name v => exact .generic name v
  | absent => exact .absent
  | optionalNull inner => exact .optionalNull inner
  | optional inner v out hv h ih => exact .optional inner out ih
  | literals values v h => exact .literals values v h
  | union before member after v out hfirst h ih =>
    exact .union _ member out (List.mem_append_right _ List.mem_cons_self) ih
  | array elem variadic items outs hl h ih =>
    exact .array elem variadic outs (forall_mem_of_zip_right hl ih)
  | variadic elem items outs hl h ih =>
    exact .variadic elem outs (forall_mem_of_zip_right hl ih)
  | tuple elems items outs hi hl h ih =>
    exact .tuple elems outs (hl.trans hi) (forall_zip_of_triple_right hl ih)
  | record keyTy valueTy members outs hkeys hk h ih =>
    have hl : outs.length = members.length := by
      simpa [Entries.keys] using congrArg List.length hkeys
    refine .record keyTy valueTy outs ?_ (forall_mem_of_zip_right hl ih)
    rw [hkeys]
    exact List.forall_mem_map.mpr hk
  | struct target args s object out hs hkeys hp hm ih =>
    refine .struct target args s out hs ?_ fun f hf w hw hdefault => ?_
    · intro key hkey
      rw [hkeys] at hkey
      obtain ⟨f, hf, rfl⟩ := List.mem_map.mp hkey
      exact ⟨f, (List.mem_filter.mp hf).1, rfl⟩
    · cases hv : object.get? f.name with
      | some v => exact ih f hf v w hv hw
      | none => exact absurd ((hm f hf hv).1.symm.trans hw) hdefault
  | enumeration target args e v he h => exact .enumeration target args e v he h
  | «alias» target args a v out ha h ih => exact .alias target args a out ha ih

end Wire

end WireContract
