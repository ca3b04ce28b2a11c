import Mathlib.Data.List.Nodup
import WireContract.Type.Table

/-!
# Fields of a struct

What the parts of a field say together about whether it may be left out, and structs whose fields
are known by their names.

* `shape_of_default`: a default alone is enough for a field to be left out;
* `requiredFields_eq_zero_iff`: all fields may be left out if none is required;
* `StructDef.FieldsDistinct`, `TypeTable.FieldsDistinct`: no two fields of a struct have one name.
-/

namespace WireContract

/-- A default makes a field one that may be left out, whatever its type is. -/
theorem Field.shape_of_default {f : Field} (h : f.default.isSome = true) : f.shape.2 = true := by
  unfold shape
  split
  · rfl
  · split
    · rfl
    · simp [h]
  · simp [h]

theorem Field.isRequired_eq_false_iff {f : Field} : f.isRequired = false ↔ f.shape.2 = true := by
  simp [isRequired]

/-- No field has to be there exactly if every field may be left out. -/
theorem StructDef.requiredFields_eq_zero_iff {s : StructDef} :
    s.requiredFields = 0 ↔ ∀ f ∈ s.fields, f.shape.2 = true := by
  simp [requiredFields, Field.isRequired]

/-- Whether no two fields have one name. -/
def StructDef.FieldsDistinct (s : StructDef) : Prop := (s.fields.map (·.name)).Nodup

instance (s : StructDef) : Decidable s.FieldsDistinct :=
  inferInstanceAs (Decidable (s.fields.map (·.name)).Nodup)

/-- Whether the fields of every struct have names of their own. -/
def TypeTable.FieldsDistinct (types : TypeTable) : Prop :=
  ∀ id s, types.get id = .ok (.struct s) → s.FieldsDistinct

/-- A field is known by its name. -/
theorem StructDef.FieldsDistinct.eq_of_name {s : StructDef} (h : s.FieldsDistinct) {f g : Field}
    (hf : f ∈ s.fields) (hg : g ∈ s.fields) (hname : g.name = f.name) : g = f :=
  List.inj_on_of_nodup_map h hg hf hname

end WireContract
