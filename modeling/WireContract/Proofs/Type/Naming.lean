import Mathlib.Data.List.Nodup
import WireContract.Proofs.Type.Writing

/-!
# The names in a table

Every slot of a table has a name, reserved or defined, and no way to write to the table gives two
slots one name. So a name leads to one number and a number to one name, and filling a slot changes
neither.

* `TypeTable.names`: the names of the slots in order;
* `declare_names`, `define_names`, `insert_names`: what becomes of them;
* `TypeTable.Built`: the tables that can come about; `Built.nodup_names`: whose names are distinct;
  `Built.isIdentifier`, `Built.bareNames`: and whose names and those in bodies are identifiers;
* `lookup_eq_some_iff`: the number of a name is the place where it stands;
* `TypeTable.nameOf`: the name of a definition, as it is written in a reference.
-/

namespace WireContract

/-- Type parameters are among the names that a definition is written with. -/
theorem Definition.generics_subset_bareNames (body : Definition) :
    body.generics ⊆ body.bareNames := by
  cases body with
  | enumeration e => exact List.nil_subset _
  | _ => exact List.Subset.refl _

namespace TypeTable

/-- The names of the slots, in order. -/
def names (t : TypeTable) : List String := t.slots.map Slot.name

@[simp] theorem length_names (t : TypeTable) : t.names.length = t.size :=
  List.length_map Slot.name

/-! ## 1. Writing -/

section Writing

variable {t : TypeTable}

theorem isSome_lookup_iff {name : String} : (t.lookup name).isSome = true ↔ name ∈ t.names := by
  rw [lookup, List.findIdx?_isSome, List.any_eq_true, names, List.mem_map]
  simp only [beq_iff_eq]

/-- A name that is declared is an identifier, is new, and goes to the end. -/
theorem declare_names (t : TypeTable) (name : String) :
    Yields (t.declare name) fun result =>
      Text.isIdentifier name = true ∧ name ∉ t.names ∧ result.2.names = t.names ++ [name] := by
  unfold declare
  split
  · exact .error _
  · rename_i hident
    split
    · exact .error _
    · rename_i hnew
      refine .ok ⟨by simpa using hident, fun hmem => hnew (isSome_lookup_iff.mpr hmem), ?_⟩
      rw [names, List.map_append]
      rfl

/-- A definition has the name of the slot that it fills. -/
theorem define_names (t : TypeTable) (id : DefId) (body : Definition) :
    Yields (t.define id body) fun t' => t'.names = t.names := by
  refine (define_yields t id body).mono fun t' h => ?_
  obtain ⟨hslot, hslots⟩ := h
  obtain ⟨hid, hget⟩ := List.getElem?_eq_some_iff.mp hslot
  have hname : (Slot.defined body).name = (t.slots[id]).name := by rw [hget]; rfl
  rw [names, hslots, List.map_set, hname, ← List.getElem_map Slot.name (h := by simpa using hid),
    List.set_getElem_self]
  rfl

/-- A definition that is inserted brings its name to the end. -/
theorem insert_names (t : TypeTable) (body : Definition) :
    Yields (t.insert body) fun result =>
      Text.isIdentifier body.name = true ∧ body.name ∉ t.names ∧
        result.2.names = t.names ++ [body.name] := by
  unfold insert
  refine Yields.always.bind fun _ _ => ?_
  refine (declare_names t body.name).bind fun declared hdeclared => ?_
  obtain ⟨id, t'⟩ := declared
  obtain ⟨hident, hnew, hnames⟩ := hdeclared
  refine (define_names t' id body).bind fun t'' hdefined => .ok ⟨hident, hnew, ?_⟩
  exact hdefined.trans hnames

/-- The names that pass the check are identifiers. -/
theorem checkNames_eq_ok_iff {body : Definition} :
    checkNames body = .ok () ↔ ∀ name ∈ body.bareNames, Text.isIdentifier name = true := by
  rw [checkNames]
  split
  · rename_i name hname
    have hbad := List.find?_some hname
    refine ⟨(nomatch ·), fun h => ?_⟩
    simp [h name (List.mem_of_find?_eq_some hname)] at hbad
  · rename_i hnone
    exact ⟨fun _ => by simpa using hnone, fun _ => rfl⟩

theorem define_checks (t : TypeTable) (id : DefId) (body : Definition) :
    Yields (t.define id body) fun _ => checkNames body = .ok () := by
  unfold define
  cases checkNames body with
  | ok _ => exact fun _ _ => rfl
  | error fault => exact .error fault

theorem insert_checks (t : TypeTable) (body : Definition) :
    Yields (t.insert body) fun _ => checkNames body = .ok () := by
  unfold insert
  cases checkNames body with
  | ok _ => exact fun _ _ => rfl
  | error fault => exact .error fault

/-- The tables that come about by the three ways to write. -/
inductive Built : TypeTable → Prop where
  | empty : Built .empty
  | declare (t : TypeTable) (name : String) (id : DefId) (t' : TypeTable) (ht : Built t)
      (h : t.declare name = .ok (id, t')) : Built t'
  | define (t : TypeTable) (id : DefId) (body : Definition) (t' : TypeTable) (ht : Built t)
      (h : t.define id body = .ok t') : Built t'
  | insert (t : TypeTable) (body : Definition) (id : DefId) (t' : TypeTable) (ht : Built t)
      (h : t.insert body = .ok (id, t')) : Built t'

theorem nodup_concat {names : List String} {name : String} (h : names.Nodup)
    (hname : name ∉ names) : (names ++ [name]).Nodup :=
  List.nodup_append.mpr ⟨h, List.nodup_singleton name, fun _ hmem _ hlast =>
    List.mem_singleton.mp hlast ▸ ne_of_mem_of_not_mem hmem hname⟩

/-- **No two slots have one name.** -/
theorem Built.nodup_names (h : t.Built) : t.names.Nodup := by
  induction h with
  | empty => exact List.nodup_nil
  | declare t name id t' _ h ih =>
    obtain ⟨-, hnew, hnames⟩ := declare_names t name _ h
    exact hnames ▸ nodup_concat ih hnew
  | define t id body t' _ h ih => exact define_names t id body _ h ▸ ih
  | insert t body id t' _ h ih =>
    obtain ⟨-, hnew, hnames⟩ := insert_names t body _ h
    exact hnames ▸ nodup_concat ih hnew

/-- All names are identifiers. -/
theorem Built.isIdentifier (h : t.Built) : ∀ name ∈ t.names, Text.isIdentifier name = true := by
  have hconcat : ∀ {names : List String} {name : String},
      (∀ other ∈ names, Text.isIdentifier other = true) → Text.isIdentifier name = true →
        ∀ other ∈ names ++ [name], Text.isIdentifier other = true := fun hall hlast =>
    List.forall_mem_append.mpr ⟨hall, List.forall_mem_singleton.mpr hlast⟩
  induction h with
  | empty => exact fun name hname => absurd hname List.not_mem_nil
  | declare t name id t' _ h ih =>
    obtain ⟨hident, -, hnames⟩ := declare_names t name _ h
    exact hnames ▸ hconcat ih hident
  | define t id body t' _ h ih => exact define_names t id body _ h ▸ ih
  | insert t body id t' _ h ih =>
    obtain ⟨hident, -, hnames⟩ := insert_names t body _ h
    exact hnames ▸ hconcat ih hident

/-- **So are the names that a definition is written with.** -/
theorem Built.bareNames (h : t.Built) {id : DefId} {body : Definition}
    (hget : t.get id = .ok body) :
    ∀ name ∈ body.bareNames, Text.isIdentifier name = true := by
  induction h generalizing id body with
  | empty => cases hget
  | declare t name new t' _ h ih =>
    obtain ⟨-, hslots⟩ := declare_yields t name _ h
    exact ih ((get_declare hslots).mp hget)
  | define t new filled t' _ h ih =>
    obtain ⟨hslot, hslots⟩ := define_yields t new filled _ h
    rw [get_define (List.getElem?_eq_some_iff.mp hslot).1 hslots] at hget
    split at hget
    · rw [hget]
      exact checkNames_eq_ok_iff.mp (define_checks t new filled _ h)
    · exact ih hget
  | insert t new added t' _ h ih =>
    obtain ⟨-, hslots⟩ := insert_yields t new _ h
    rw [get_insert hslots] at hget
    split at hget
    · rw [hget]
      exact checkNames_eq_ok_iff.mp (insert_checks t new _ h)
    · exact ih hget

end Writing

/-! ## 2. Questions -/

section Questions

variable {t : TypeTable}

/-- Names are looked up among the names. -/
theorem lookup_eq_findIdx? (t : TypeTable) (name : String) :
    t.lookup name = t.names.findIdx? fun other => other == name := by
  rw [lookup, names, List.findIdx?_map]
  rfl

theorem lookup_congr {t' : TypeTable} (h : t'.names = t.names) (name : String) :
    t'.lookup name = t.lookup name := by
  rw [lookup_eq_findIdx?, lookup_eq_findIdx?, h]

/-- **The number of a name is the place where it stands**, if no two slots have one name. -/
theorem lookup_eq_some_iff (h : t.names.Nodup) {name : String} {id : DefId} :
    t.lookup name = some id ↔ t.names[id]? = some name := by
  rw [lookup_eq_findIdx?, List.findIdx?_eq_some_iff_getElem, List.getElem?_eq_some_iff]
  refine exists_congr fun hid => ⟨fun hfound => beq_iff_eq.mp hfound.1, ?_⟩
  rintro rfl
  refine ⟨beq_self_eq_true _, fun j hj hsame => ?_⟩
  have hji := (List.Nodup.getElem_inj_iff h).mp (beq_iff_eq.mp hsame)
  exact absurd hji (Nat.ne_of_lt hj)

/-- The name of the definition of a number; no text where there is no definition. -/
def nameOf (t : TypeTable) (id : DefId) : String :=
  match t.get id with
  | .ok body => body.name
  | .error _ => ""

theorem nameOf_of_get {id : DefId} {body : Definition} (h : t.get id = .ok body) :
    t.nameOf id = body.name := by
  rw [nameOf, h]

theorem getElem?_names_of_get {id : DefId} {body : Definition} (h : t.get id = .ok body) :
    t.names[id]? = some body.name := by
  rw [names, List.getElem?_map, get_eq_ok_iff.mp h]
  rfl

/-- **Definitions of one name are one definition.** -/
theorem eq_of_nameOf_eq (ht : t.names.Nodup) {id other : DefId} {body found : Definition}
    (hbody : t.get id = .ok body) (hfound : t.get other = .ok found)
    (h : t.nameOf id = t.nameOf other) : id = other := by
  rw [nameOf_of_get hbody, nameOf_of_get hfound] at h
  have hid := getElem?_names_of_get hbody
  have hother := getElem?_names_of_get hfound
  rw [h, ← hother] at hid
  have hlt : id < t.names.length := t.length_names.symm ▸ lt_size_of_get hbody
  exact (List.getElem?_inj hlt ht).mp hid

end Questions

end TypeTable

end WireContract
