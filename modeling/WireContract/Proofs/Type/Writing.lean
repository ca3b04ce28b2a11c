import WireContract.Proofs.Outcome
import WireContract.Type.Table

/-!
# Writing to the table of definitions

What each way to write to the table leaves behind, slot by slot, and what is found there then.

* `declare_yields`, `define_yields`, `insert_yields`: the slots after a call that succeeds;
* `get_declare`, `get_define`, `get_insert`: the definitions that are found then.
-/

namespace WireContract.TypeTable

variable {t : TypeTable} {body : Definition}

/-! ## 1. Slots -/

/-- A new name takes the next slot. -/
theorem declare_yields (t : TypeTable) (name : String) :
    Yields (t.declare name) fun result =>
      result.1 = t.size ∧ result.2.slots = t.slots ++ [.reserved name] := by
  unfold declare
  split
  · exact .error _
  · split
    · exact .error _
    · exact .ok ⟨rfl, rfl⟩

/-- A slot that is reserved for the name of the definition is filled. -/
theorem define_yields (t : TypeTable) (id : DefId) (body : Definition) :
    Yields (t.define id body) fun t' =>
      t.slots[id]? = some (.reserved body.name) ∧ t'.slots = t.slots.set id (.defined body) := by
  unfold define
  refine Yields.always.bind fun _ _ => ?_
  split
  · exact .error _
  · rename_i name hslot
    split
    · rename_i hname
      rw [hname] at hslot
      exact .ok ⟨hslot, rfl⟩
    · exact .error _
  · exact .error _

/-- A definition under a new name takes the next slot. -/
theorem insert_yields (t : TypeTable) (body : Definition) :
    Yields (t.insert body) fun result =>
      result.1 = t.size ∧ result.2.slots = t.slots ++ [.defined body] := by
  unfold insert
  refine Yields.always.bind fun _ _ => ?_
  refine (declare_yields t body.name).bind fun declared hdeclared => ?_
  obtain ⟨id, t'⟩ := declared
  obtain ⟨rfl, hslots⟩ := hdeclared
  refine (define_yields t' t.size body).bind fun t'' hdefined => .ok ⟨rfl, ?_⟩
  rw [hdefined.2, hslots, size, List.set_append_right _ _ (Nat.le_refl _), Nat.sub_self]
  rfl

/-! ## 2. Definitions -/

theorem lookup_lt {name : String} {id : DefId} (h : t.lookup name = some id) : id < t.size :=
  (List.findIdx?_eq_some_iff_findIdx_eq.mp h).1

/-- What is found is the definition in the slot. -/
theorem get_eq_ok_iff {id : DefId} : t.get id = .ok body ↔ t.slots[id]? = some (.defined body) := by
  unfold get
  split <;> simp_all

/-- A reserved slot is behind no number with a definition. -/
theorem get_declare {t' : TypeTable} {name : String} {id : DefId} {found : Definition}
    (h : t'.slots = t.slots ++ [.reserved name]) :
    t'.get id = .ok found ↔ t.get id = .ok found := by
  rw [get_eq_ok_iff, get_eq_ok_iff, h]
  rcases Nat.lt_trichotomy id t.slots.length with hlt | rfl | hgt
  · rw [List.getElem?_append_left hlt]
  · simp
  · have hbehind : (t.slots ++ [Slot.reserved name]).length ≤ id := by
      rw [List.length_append]
      exact hgt
    rw [List.getElem?_eq_none hbehind, List.getElem?_eq_none (Nat.le_of_lt hgt)]

theorem size_of_define {t' : TypeTable} {id : DefId}
    (h : t'.slots = t.slots.set id (.defined body)) : t'.size = t.size := by
  rw [size, h, List.length_set, size]

/-- Behind a filled slot is its definition, and behind every other what was there. -/
theorem get_define {t' : TypeTable} {id other : DefId} {found : Definition} (hid : id < t.size)
    (h : t'.slots = t.slots.set id (.defined body)) :
    t'.get other = .ok found ↔ if other = id then found = body else t.get other = .ok found := by
  rw [get_eq_ok_iff, h]
  split
  · rename_i heq
    rw [heq, List.getElem?_set_self hid, Option.some.injEq, Slot.defined.injEq, eq_comm]
  · rename_i hne
    rw [List.getElem?_set_ne (Ne.symm hne), get_eq_ok_iff]

theorem size_of_insert {t' : TypeTable} (h : t'.slots = t.slots ++ [.defined body]) :
    t'.size = t.size + 1 := by
  rw [size, h, List.length_append, size, List.length_singleton]

/-- A new slot changes what is found under its own number only. -/
theorem get_insert_of_ne {t' : TypeTable} {other : DefId}
    (h : t'.slots = t.slots ++ [.defined body]) (hother : other ≠ t.size) :
    t'.get other = t.get other := by
  have hslot : t'.slots[other]? = t.slots[other]? := by
    rw [h]
    rcases Nat.lt_or_gt_of_ne hother with hlt | hgt
    · exact List.getElem?_append_left hlt
    · have hbehind : (t.slots ++ [Slot.defined body]).length ≤ other := by
        rw [List.length_append]
        exact hgt
      rw [List.getElem?_eq_none hbehind, List.getElem?_eq_none (Nat.le_of_lt hgt)]
  rw [get, get, hslot]

/-- A new slot disturbs no other. -/
theorem get_insert {t' : TypeTable} {other : DefId} {found : Definition}
    (h : t'.slots = t.slots ++ [.defined body]) :
    t'.get other = .ok found ↔
      if other = t.size then found = body else t.get other = .ok found := by
  split
  · rename_i heq
    rw [get_eq_ok_iff, h, heq, size, List.getElem?_concat_length, Option.some.injEq,
      Slot.defined.injEq, eq_comm]
  · rename_i hne
    rw [get_insert_of_ne h hne]

theorem get_insert_self {t' : TypeTable} (h : t'.slots = t.slots ++ [.defined body]) :
    t'.get t.size = .ok body :=
  (get_insert h).mpr (by rw [if_pos rfl])

theorem get_insert_of_get {t' : TypeTable} {other : DefId} {found : Definition}
    (h : t'.slots = t.slots ++ [.defined body]) (hfound : t.get other = .ok found) :
    t'.get other = .ok found := by
  have hne : other ≠ t.size := Nat.ne_of_lt (lt_size_of_get hfound)
  exact (get_insert h).mpr (by rwa [if_neg hne])

end WireContract.TypeTable
