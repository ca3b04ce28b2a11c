import WireContract.Wire.Check

/-!
# Inhabitants of a type

Which values a type has, said without levels: `Inhabits` follows the definitions as deep as the
value makes it necessary.

* `Inhabits`: the values of a type;
* `KeyFits`, `FieldFits`: what is asked of one key of a record and of one field of a struct;
* `inhabits_union_iff` and its neighbours: for every kind of type, what its inhabitants are.
-/

namespace WireContract.Wire

/-! ## 1. Membership -/

/-- The values of a type. A struct takes no notice of members that it does not declare, and a
    field that is not there is allowed to be so if it has a default value or is not required. -/
inductive Inhabits (types : TypeTable) : Ty → Json → Prop where
  | null : Inhabits types (.primitive .null) .null
  | bool (b : Bool) : Inhabits types (.primitive .bool) (.bool b)
  | number (n : Json.Number) : Inhabits types (.primitive .number) (.number n)
  | string (s : String) : Inhabits types (.primitive .string) (.string s)
  | any (v : Json) : Inhabits types .any v
  | generic (name : String) (v : Json) : Inhabits types (.generic name) v
  | absent : Inhabits types .absent .null
  | optionalNull (inner : Ty) : Inhabits types (.optional inner) .null
  | optional (inner : Ty) (v : Json) (h : Inhabits types inner v) :
      Inhabits types (.optional inner) v
  | literals (values : List Json) (v : Json) (h : ∃ w ∈ values, (w == v) = true) :
      Inhabits types (.literals values) v
  | union (members : List Ty) (member : Ty) (v : Json) (hm : member ∈ members)
      (h : Inhabits types member v) : Inhabits types (.union members) v
  | array (elem : Ty) (variadic : Bool) (items : List Json)
      (h : ∀ v ∈ items, Inhabits types elem v) :
      Inhabits types (.container .array [elem] variadic) (.array items)
  | variadic (elem : Ty) (items : List Json) (h : ∀ v ∈ items, Inhabits types elem v) :
      Inhabits types (.container .tuple [elem] true) (.array items)
  | tuple (elems : List Ty) (items : List Json) (hl : items.length = elems.length)
      (h : ∀ p ∈ elems.zip items, Inhabits types p.1 p.2) :
      Inhabits types (.container .tuple elems false) (.array items)
  /-- A key of numbers has to be written like a finite number; any other key is a string. -/
  | record (keyTy valueTy : Ty) (members : Entries Json)
      (hn : keyTy = .number → ∀ e ∈ members, Binary64.isFiniteDecimal e.1.toList = true)
      (hk : keyTy ≠ .number → ∀ e ∈ members, Inhabits types keyTy (.string e.1))
      (hv : ∀ e ∈ members, Inhabits types valueTy e.2) :
      Inhabits types (.container .record [keyTy, valueTy] false) (.object members)
  | struct (target : DefId) (args : List Ty) (s : StructDef) (object : Entries Json)
      (hs : types.get target = .ok (.struct s))
      (hp : ∀ f ∈ s.fields, ∀ v, object.get? f.name = some v →
        Inhabits types (f.shape.1.substitute (Ty.bind s.generics args)) v)
      (hm : ∀ f ∈ s.fields, object.get? f.name = none →
        f.default.isSome = true ∨ f.isRequired = false) :
      Inhabits types (.named target args) (.object object)
  | enumeration (target : DefId) (args : List Ty) (e : EnumDef) (v : Json)
      (he : types.get target = .ok (.enumeration e)) (h : ∃ m ∈ e.members, (m.value == v) = true) :
      Inhabits types (.named target args) v
  | alias (target : DefId) (args : List Ty) (a : AliasDef) (v : Json)
      (ha : types.get target = .ok (.alias a))
      (h : Inhabits types (a.ty.substitute (Ty.bind a.generics args)) v) :
      Inhabits types (.named target args) v

/-- The rule for a key of an object: against the type of numbers it has to be written like a
    finite number, against any other type it counts as a string. -/
def KeyFits (fits : Ty → Json → Prop) (ty : Ty) (key : String) : Prop :=
  match ty with
  | .primitive .number => Binary64.isFiniteDecimal key.toList = true
  | ty => fits ty (.string key)

/-- The rule for a field of a struct: what is there has to fit, and what is not there has to be
    one that may be left out. -/
def FieldFits (fits : Ty → Json → Prop) (bindings : Ty.Bindings) (object : Entries Json)
    (f : Field) : Prop :=
  match object.get? f.name with
  | some v => fits (f.shape.1.substitute bindings) v
  | none => f.default.isSome = true ∨ f.isRequired = false

section Rules

variable {fits : Ty → Json → Prop}

theorem keyFits_number (key : String) :
    KeyFits fits .number key ↔ Binary64.isFiniteDecimal key.toList = true := Iff.rfl

theorem keyFits_of_ne {ty : Ty} (h : ty ≠ .number) (key : String) :
    KeyFits fits ty key ↔ fits ty (.string key) := by
  unfold KeyFits
  split
  · exact absurd rfl h
  · exact Iff.rfl

variable {bindings : Ty.Bindings} {object : Entries Json} {f : Field}

theorem fieldFits_of_some {v : Json} (h : object.get? f.name = some v) :
    FieldFits fits bindings object f ↔ fits (f.shape.1.substitute bindings) v := by
  rw [FieldFits, h]

theorem fieldFits_of_none (h : object.get? f.name = none) :
    FieldFits fits bindings object f ↔ f.default.isSome = true ∨ f.isRequired = false := by
  rw [FieldFits, h]

end Rules

/-- Whether a value is of a kind of values without parts. -/
def isOfKind (v : Json) : Primitive → Bool
  | .null => v.isNull
  | .bool => v.isBool
  | .number => v.isNumber
  | .string => v.isString

section Inversion

variable {types : TypeTable}

theorem inhabits_primitive_iff {kind : Primitive} {v : Json} :
    Inhabits types (.primitive kind) v ↔ isOfKind v kind = true := by
  constructor
  · intro h
    cases h <;> rfl
  · intro h
    cases kind <;> cases v <;> first | constructor | cases h

theorem inhabits_absent_iff {v : Json} : Inhabits types .absent v ↔ v.isNull = true := by
  constructor
  · intro h
    cases h
    rfl
  · intro h
    cases v <;> first | exact .absent | cases h

theorem inhabits_union_iff {members : List Ty} {v : Json} :
    Inhabits types (.union members) v ↔ ∃ member ∈ members, Inhabits types member v := by
  constructor
  · intro h
    cases h with
    | union _ member _ hm h => exact ⟨member, hm, h⟩
  · intro h
    rcases h with ⟨member, hm, h⟩
    exact .union members member v hm h

theorem inhabits_optional_iff {inner : Ty} {v : Json} :
    Inhabits types (.optional inner) v ↔ v.isNull = true ∨ Inhabits types inner v := by
  constructor
  · intro h
    cases h with
    | optionalNull => exact Or.inl rfl
    | optional _ _ h => exact Or.inr h
  · intro h
    rcases h with hn | h
    · cases v <;> first | exact .optionalNull inner | cases hn
    · exact .optional inner v h

theorem inhabits_literals_iff {values : List Json} {v : Json} :
    Inhabits types (.literals values) v ↔ ∃ w ∈ values, (w == v) = true := by
  constructor
  · intro h
    cases h with
    | literals _ _ h => exact h
  · exact .literals values v

theorem inhabits_array_iff {elem : Ty} {variadic : Bool} {v : Json} :
    Inhabits types (.container .array [elem] variadic) v ↔
      ∃ items, v = .array items ∧ ∀ w ∈ items, Inhabits types elem w := by
  constructor
  · intro h
    cases h with
    | array _ _ items h => exact ⟨items, rfl, h⟩
  · intro h
    rcases h with ⟨items, rfl, h⟩
    exact .array elem variadic items h

theorem inhabits_variadic_iff {elem : Ty} {v : Json} :
    Inhabits types (.container .tuple [elem] true) v ↔
      ∃ items, v = .array items ∧ ∀ w ∈ items, Inhabits types elem w := by
  constructor
  · intro h
    cases h with
    | variadic _ items h => exact ⟨items, rfl, h⟩
  · intro h
    rcases h with ⟨items, rfl, h⟩
    exact .variadic elem items h

theorem inhabits_tuple_iff {elems : List Ty} {v : Json} :
    Inhabits types (.container .tuple elems false) v ↔
      ∃ items, v = .array items ∧ items.length = elems.length ∧
        ∀ p ∈ elems.zip items, Inhabits types p.1 p.2 := by
  constructor
  · intro h
    cases h with
    | tuple _ items hl h => exact ⟨items, rfl, hl, h⟩
  · intro h
    rcases h with ⟨items, rfl, hl, h⟩
    exact .tuple elems items hl h

theorem inhabits_record_iff {keyTy valueTy : Ty} {v : Json} :
    Inhabits types (.container .record [keyTy, valueTy] false) v ↔
      ∃ members : Entries Json, v = .object members ∧
        ∀ e ∈ members, KeyFits (Inhabits types) keyTy e.1 ∧ Inhabits types valueTy e.2 := by
  constructor
  · intro h
    cases h with
    | record _ _ members hn hk hv =>
      refine ⟨members, rfl, fun e he => ⟨?_, hv e he⟩⟩
      by_cases hty : keyTy = .number
      · subst hty
        exact hn rfl e he
      · exact (keyFits_of_ne hty e.1).mpr (hk hty e he)
  · intro h
    rcases h with ⟨members, rfl, h⟩
    refine .record keyTy valueTy members ?_ ?_ fun e he => (h e he).2
    · rintro rfl e he
      exact (h e he).1
    · intro hty e he
      exact (keyFits_of_ne hty e.1).mp (h e he).1

theorem inhabits_struct_iff {target : DefId} {args : List Ty} {s : StructDef} {v : Json}
    (hs : types.get target = .ok (.struct s)) :
    Inhabits types (.named target args) v ↔
      ∃ object : Entries Json, v = .object object ∧
        ∀ f ∈ s.fields, FieldFits (Inhabits types) (Ty.bind s.generics args) object f := by
  constructor
  · intro h
    cases h with
    | struct _ _ s' object hs' hp hm =>
      obtain rfl : s = s' := by simpa [hs] using hs'
      refine ⟨object, rfl, fun f hf => ?_⟩
      cases hg : object.get? f.name with
      | some w => exact (fieldFits_of_some hg).mpr (hp f hf w hg)
      | none => exact (fieldFits_of_none hg).mpr (hm f hf hg)
    | enumeration _ _ e _ he _ => simp [hs] at he
    | «alias» _ _ a _ ha _ => simp [hs] at ha
  · intro h
    rcases h with ⟨object, rfl, h⟩
    refine .struct target args s object hs ?_ ?_
    · exact fun f hf w hg => (fieldFits_of_some hg).mp (h f hf)
    · exact fun f hf hg => (fieldFits_of_none hg).mp (h f hf)

theorem inhabits_enumeration_iff {target : DefId} {args : List Ty} {e : EnumDef} {v : Json}
    (he : types.get target = .ok (.enumeration e)) :
    Inhabits types (.named target args) v ↔ ∃ m ∈ e.members, (m.value == v) = true := by
  constructor
  · intro h
    cases h with
    | struct _ _ s object hs _ _ => simp [he] at hs
    | enumeration _ _ e' _ he' h =>
      obtain rfl : e = e' := by simpa [he] using he'
      exact h
    | «alias» _ _ a _ ha _ => simp [he] at ha
  · exact .enumeration target args e v he

theorem inhabits_alias_iff {target : DefId} {args : List Ty} {a : AliasDef} {v : Json}
    (ha : types.get target = .ok (.alias a)) :
    Inhabits types (.named target args) v ↔
      Inhabits types (a.ty.substitute (Ty.bind a.generics args)) v := by
  constructor
  · intro h
    cases h with
    | struct _ _ s object hs _ _ => simp [ha] at hs
    | enumeration _ _ e _ he _ => simp [ha] at he
    | «alias» _ _ a' _ ha' h =>
      obtain rfl : a = a' := by simpa [ha] using ha'
      exact h
  · exact .alias target args a v ha

end Inversion

end WireContract.Wire
