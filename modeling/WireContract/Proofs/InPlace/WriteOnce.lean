import WireContract.Proofs.InPlace.Table

/-!
# The table is written once

Whatever is called on a table that started empty, and however often calls fail: a slot never gets
another name, a definition never becomes another one, and slots and index say the same. All this is
read off what one call can do: it fails and has written nothing, or it has written one slot
(`Writes`).

* `answer_cases`, `answer_eq_ok_iff`: what one call can do, and when it does;
* `Writes.keeps`, `after_keeps`: slots keep what is in them;
* `after_built`, `table_after`: the columns make up the table of the same calls;
* `range_append_handed`: the numbers that are handed out;
* `table_is_written_once`: what holds behind any calls.
-/

namespace WireContract

open InPlace

/-- Whether a slot may have become another: it has kept its name, and its definition, if it had
    one. -/
structure Slot.KeptBy (slot later : Slot) : Prop where
  name : later.name = slot.name
  body : ∀ body, slot = .defined body → later = .defined body

namespace Slot.KeptBy

theorem refl (slot : Slot) : slot.KeptBy slot := ⟨rfl, fun _ h => h⟩

theorem trans {slot later last : Slot} (h : slot.KeptBy later) (hlast : later.KeptBy last) :
    slot.KeptBy last :=
  ⟨hlast.name.trans h.name, fun body hbody => hlast.body body (h.body body hbody)⟩

/-- A reserved slot may be filled with a definition of its name. -/
theorem filled (body : Definition) : (Slot.reserved body.name).KeptBy (.defined body) :=
  ⟨rfl, fun _ h => nomatch h⟩

end Slot.KeptBy

/-- The names that are not defined are those of the reserved slots. -/
theorem TypeTable.mem_undefined_iff {t : TypeTable} {name : String} :
    name ∈ t.undefined ↔ Slot.reserved name ∈ t.slots := by
  rw [undefined, List.mem_filterMap]
  constructor
  · rintro ⟨slot, hslot, hname⟩
    cases slot with
    | reserved other =>
      obtain rfl := Option.some.inj hname
      exact hslot
    | defined body => cases hname
  · exact fun h => ⟨_, h, rfl⟩

/-- They stand in the order of the slots. -/
theorem TypeTable.undefined_sublist_names (t : TypeTable) : t.undefined.Sublist t.names := by
  rw [undefined, names]
  induction t.slots with
  | nil => exact .slnil
  | cons slot rest ih =>
    cases slot with
    | reserved name => exact ih.cons_cons name
    | defined body => exact ih.cons body.name

namespace Columns

variable {c c' : Columns} {w : Write} {out : Option DefId}

/-! ## 1. One call -/

/-- The call with its answer: the number of the slot that it hands out, if it hands out one. -/
def Write.answer : Write → InPlace Columns (Option DefId)
  | .declare name => some <$> Columns.declare name
  | .define id body => (fun _ => none) <$> Columns.define id body
  | .insert body => some <$> Columns.insert body

/-- The same call on a table. -/
def Write.onTable : Write → TypeTable → Except SchemaFault (Option DefId × TypeTable)
  | .declare name, t => (t.declare name).map fun result => (some result.1, result.2)
  | .define id body, t => (t.define id body).map fun t => (none, t)
  | .insert body, t => (t.insert body).map fun result => (some result.1, result.2)

/-- What a call writes that succeeds, what it needs for that, and what it answers. -/
inductive Writes (c : Columns) : Write → Option DefId → Columns → Prop where
  | declare (name : String) (hident : Text.isIdentifier name = true)
      (hnew : name ∉ c.table.names) :
      Writes c (.declare name) (some c.slots.length)
        { slots := c.slots ++ [.reserved name], index := c.index.put name c.slots.length }
  | define (id : DefId) (body : Definition)
      (hnames : ∀ name ∈ body.bareNames, Text.isIdentifier name = true)
      (hslot : c.slots[id]? = some (.reserved body.name)) :
      Writes c (.define id body) none { c with slots := c.slots.set id (.defined body) }
  | insert (body : Definition)
      (hnames : ∀ name ∈ body.bareNames, Text.isIdentifier name = true)
      (hident : Text.isIdentifier body.name = true) (hnew : body.name ∉ c.table.names) :
      Writes c (.insert body) (some c.slots.length)
        { slots := c.slots ++ [.defined body], index := c.index.put body.name c.slots.length }

theorem on_answer_snd (w : Write) (c : Columns) : (on w.answer c).2 = (on w.call c).2 := by
  have hbind : ∀ {α : Type} (x : InPlace Columns α),
      (on (x >>= fun _ => pure ()) c).2 = (on x c).2 := by
    intro α x
    rw [on_bind]
    rcases on x c with ⟨fault | a, c'⟩ <;> rfl
  cases w with
  | declare name => rw [Write.answer, Write.call, on_map, hbind]
  | define id body => rw [Write.answer, Write.call, on_map]
  | insert body => rw [Write.answer, Write.call, on_map, hbind]

/-- What is written is what the table has then, with the number that it hands out. -/
theorem Writes.onTable_eq (h : c.Writes w out c') :
    w.onTable c.table = .ok (out, c'.table) := by
  cases h with
  | declare name hident hnew =>
    rw [Write.onTable, TypeTable.declare_eq_ok hident hnew]
    rfl
  | define id body hnames hslot =>
    rw [Write.onTable, TypeTable.define_eq_ok (TypeTable.checkNames_eq_ok_iff.mpr hnames) hslot]
    rfl
  | insert body hnames hident hnew =>
    rw [Write.onTable,
      TypeTable.insert_eq_ok (TypeTable.checkNames_eq_ok_iff.mpr hnames) hident hnew]
    rfl

/-- **A call fails and has written nothing, or it has written its slot.** -/
theorem answer_cases (hc : c.Indexed) (w : Write) :
    (∃ fault, w.onTable c.table = .error fault ∧ on w.answer c = (.error fault, c)) ∨
      ∃ out c', on w.answer c = (.ok out, c') ∧ c.Writes w out c' := by
  cases w with
  | declare name =>
    rw [Write.answer, Write.onTable, on_map, declare_on hc]
    cases hdeclared : c.table.declare name with
    | error fault => exact .inl ⟨fault, rfl, rfl⟩
    | ok declared =>
      obtain ⟨id, ⟨slots⟩⟩ := declared
      obtain ⟨rfl, rfl⟩ := TypeTable.declare_yields c.table name _ hdeclared
      obtain ⟨hident, hnew, -⟩ := TypeTable.declare_names c.table name _ hdeclared
      exact .inr ⟨_, _, rfl, .declare name hident hnew⟩
  | define id body =>
    rw [Write.answer, Write.onTable, on_map, define_on]
    cases hdefined : c.table.define id body with
    | error fault => exact .inl ⟨fault, rfl, rfl⟩
    | ok t =>
      obtain ⟨slots⟩ := t
      obtain ⟨hslot, rfl⟩ := TypeTable.define_yields c.table id body _ hdefined
      have hnames := TypeTable.define_checks c.table id body _ hdefined
      exact .inr ⟨_, _, rfl, .define id body (TypeTable.checkNames_eq_ok_iff.mp hnames) hslot⟩
  | insert body =>
    rw [Write.answer, Write.onTable, on_map, insert_on hc]
    cases hinserted : c.table.insert body with
    | error fault => exact .inl ⟨fault, rfl, rfl⟩
    | ok inserted =>
      obtain ⟨id, ⟨slots⟩⟩ := inserted
      obtain ⟨rfl, rfl⟩ := TypeTable.insert_yields c.table body _ hinserted
      obtain ⟨hident, hnew, -⟩ := TypeTable.insert_names c.table body _ hinserted
      have hnames := TypeTable.insert_checks c.table body _ hinserted
      exact .inr
        ⟨_, _, rfl, .insert body (TypeTable.checkNames_eq_ok_iff.mp hnames) hident hnew⟩

/-- **A call succeeds exactly where it can write its slot.** -/
theorem answer_eq_ok_iff (hc : c.Indexed) :
    on w.answer c = (.ok out, c') ↔ c.Writes w out c' := by
  obtain ⟨fault, hfault, hon⟩ | ⟨other, c'', hon, hwrites⟩ := answer_cases hc w
  · rw [hon]
    refine ⟨(nomatch ·), fun h => ?_⟩
    rw [h.onTable_eq] at hfault
    cases hfault
  · constructor
    · intro h
      obtain ⟨hout, rfl⟩ := Prod.mk.inj (hon.symm.trans h)
      obtain rfl := Except.ok.inj hout
      exact hwrites
    · intro h
      -- a call has one way to write
      cases h <;> cases hwrites <;> exact hon

theorem Writes.keeps (h : c.Writes w out c') {id : DefId} {slot : Slot}
    (hslot : c.slots[id]? = some slot) :
    ∃ later, c'.slots[id]? = some later ∧ slot.KeptBy later := by
  have hlt := (List.getElem?_eq_some_iff.mp hslot).1
  cases h with
  | declare name hident hnew =>
    exact ⟨slot, (List.getElem?_append_left hlt).trans hslot, .refl slot⟩
  | insert body hnames hident hnew =>
    exact ⟨slot, (List.getElem?_append_left hlt).trans hslot, .refl slot⟩
  | define other body hnames hother =>
    by_cases hid : id = other
    · subst hid
      obtain rfl := Option.some.inj (hother.symm.trans hslot)
      exact ⟨.defined body, List.getElem?_set_self hlt, .filled body⟩
    · exact ⟨slot, (List.getElem?_set_ne (Ne.symm hid)).trans hslot, .refl slot⟩

theorem Writes.built (h : c.Writes w out c') (hc : c.table.Built) : c'.table.Built := by
  cases h with
  | declare name hident hnew =>
    exact .declare c.table name _ _ hc (TypeTable.declare_eq_ok hident hnew)
  | define id body hnames hslot =>
    have hchecked := TypeTable.checkNames_eq_ok_iff.mpr hnames
    exact .define c.table id body _ hc (TypeTable.define_eq_ok hchecked hslot)
  | insert body hnames hident hnew =>
    have hchecked := TypeTable.checkNames_eq_ok_iff.mpr hnames
    exact .insert c.table body _ _ hc (TypeTable.insert_eq_ok hchecked hident hnew)

/-! ## 2. Any number of calls -/

/-- What the first of some calls does to all that comes after it. -/
theorem after_cons_cases (hc : c.Indexed) (w : Write) (rest : List Write) :
    (∃ fault, w.onTable c.table = .error fault ∧ on w.answer c = (.error fault, c) ∧
        c.after (w :: rest) = c.after rest) ∨
      ∃ out c', on w.answer c = (.ok out, c') ∧ c.Writes w out c' ∧ c'.Indexed ∧
        c.after (w :: rest) = c'.after rest := by
  have hindexed := hc.write w
  have hafter : c.after (w :: rest) = (on w.call c).2.after rest := rfl
  rw [← on_answer_snd] at hindexed hafter
  obtain ⟨fault, hfault, hon⟩ | ⟨out, c', hon, hwrites⟩ := answer_cases hc w
  · rw [hon] at hafter
    exact .inl ⟨fault, hfault, hon, hafter⟩
  · rw [hon] at hindexed hafter
    exact .inr ⟨out, c', hon, hwrites, hindexed, hafter⟩

/-- A property of columns that every slot that is written keeps is there behind any calls. -/
theorem after_induction {p : Columns → Prop} (hc : c.Indexed) (h : p c)
    (hstep : ∀ c w out c', p c → c.Writes w out c' → p c') (writes : List Write) :
    p (c.after writes) := by
  induction writes generalizing c with
  | nil => exact h
  | cons w rest ih =>
    obtain ⟨fault, -, -, hrest⟩ | ⟨out, c', -, hwrites, hc', hrest⟩ := after_cons_cases hc w rest
    · rw [hrest]
      exact ih hc h
    · rw [hrest]
      exact ih hc' (hstep c w out c' h hwrites)

/-- **Slots keep what is in them**, whatever is called. -/
theorem after_keeps (hc : c.Indexed) {id : DefId} {slot : Slot} (hslot : c.slots[id]? = some slot)
    (writes : List Write) :
    ∃ later, (c.after writes).slots[id]? = some later ∧ slot.KeptBy later := by
  refine after_induction (p := fun c => ∃ later, c.slots[id]? = some later ∧ slot.KeptBy later) hc
    ⟨slot, hslot, .refl slot⟩ (fun c w out c' hkept hwrites => ?_) writes
  obtain ⟨later, hlater, hkept⟩ := hkept
  obtain ⟨last, hlast, hlater⟩ := hwrites.keeps hlater
  exact ⟨last, hlast, hkept.trans hlater⟩

/-- **The columns make up a table of the three ways to write.** -/
theorem after_built (writes : List Write) : (after {} writes).table.Built :=
  after_induction (c := {}) (p := fun c => c.table.Built) (fun _ => rfl) .empty
    (fun _ _ _ _ hbuilt hwrites => hwrites.built hbuilt) writes

/-- The numbers that calls hand out, in order. -/
def handed (c : Columns) : List Write → List DefId
  | [] => []
  | w :: rest =>
    match on w.answer c with
    | (.ok (some id), c') => id :: c'.handed rest
    | (_, c') => c'.handed rest

/-- **Numbers are handed out one after another**, each with a slot. -/
theorem range_append_handed (hc : c.Indexed) (writes : List Write) :
    List.range c.slots.length ++ c.handed writes =
      List.range (c.after writes).slots.length := by
  induction writes generalizing c with
  | nil => exact List.append_nil _
  | cons w rest ih =>
    obtain ⟨fault, -, hon, hrest⟩ | ⟨out, c', hon, hwrites, hc', hrest⟩ :=
      after_cons_cases hc w rest
    · rw [hrest, handed, hon]
      exact ih hc
    · rw [hrest, ← ih hc', handed, hon]
      cases hwrites with
      | define id body hnames hslot => rw [List.length_set]
      | declare name hident hnew =>
        rw [List.length_append, List.length_singleton, List.range_succ, List.append_assoc]
        rfl
      | insert body hnames hident hnew =>
        rw [List.length_append, List.length_singleton, List.range_succ, List.append_assoc]
        rfl

/-- The table behind the same calls; one that fails leaves it as it was. -/
def tableAfter (t : TypeTable) (writes : List Write) : TypeTable :=
  writes.foldl (fun t w =>
    match w.onTable t with
    | .ok (_, t') => t'
    | .error _ => t) t

/-- **The calls do to the columns what they do to the table.** -/
theorem table_after (hc : c.Indexed) (writes : List Write) :
    (c.after writes).table = tableAfter c.table writes := by
  induction writes generalizing c with
  | nil => rfl
  | cons w rest ih =>
    rw [tableAfter, List.foldl_cons]
    obtain ⟨fault, hfault, -, hrest⟩ | ⟨out, c', -, hwrites, hc', hrest⟩ :=
      after_cons_cases hc w rest
    · rw [hrest, hfault]
      exact ih hc
    · rw [hrest, hwrites.onTable_eq]
      exact ih hc'

/-- A name leads to the number of the slot that has it, and to no other. -/
theorem index_eq_some_iff (hc : c.Indexed) (hnodup : c.table.names.Nodup) {name : String}
    {id : DefId} :
    c.index.get? name = some id ↔ ∃ slot, c.slots[id]? = some slot ∧ slot.name = name := by
  rw [hc name, TypeTable.lookup_eq_some_iff hnodup, TypeTable.names, List.getElem?_map,
    Option.map_eq_some_iff]
  rfl

/-- **The table is written once, and a call on it does all that it does or nothing.** The calls are
    any on a table that started empty, and of all any may have failed. -/
theorem table_is_written_once (writes : List Write) :
    let c := after {} writes
    -- the slots have identifiers for names, no two the same
    ((∀ slot ∈ c.slots, Text.isIdentifier slot.name = true) ∧ (c.slots.map Slot.name).Nodup) ∧
      -- a name leads to the number of its slot, and no other name does
      (∀ name id,
        c.index.get? name = some id ↔ ∃ slot, c.slots[id]? = some slot ∧ slot.name = name) ∧
      -- the numbers that were handed out are 0, 1, 2, and so on
      handed {} writes = List.range c.slots.length ∧
      -- whatever is called next, a slot keeps its name, and a definition stays what it is
      (∀ (more : List Write) (id : DefId) (slot : Slot), c.slots[id]? = some slot →
        ∃ later, (c.after more).slots[id]? = some later ∧ later.name = slot.name ∧
          ∀ body, slot = .defined body → later = .defined body) ∧
      -- the name of a definition leads to it, and its parameters and members have identifiers
      (∀ (id : DefId) (body : Definition), c.slots[id]? = some (.defined body) →
        c.index.get? body.name = some id ∧
          (∀ name ∈ body.generics, Text.isIdentifier name = true) ∧
          ∀ e, body = .enumeration e → ∀ m ∈ e.members, Text.isIdentifier m.name = true) ∧
      -- what is not defined are the reserved slots, in their order
      (c.table.undefined.Sublist (c.slots.map Slot.name) ∧
        ∀ name, name ∈ c.table.undefined ↔ .reserved name ∈ c.slots) ∧
      -- a call that fails has changed nothing, and one succeeds exactly if it can write its slot
      ((∀ (w : Write) fault, (on w.answer c).1 = .error fault → (on w.answer c).2 = c) ∧
        ∀ (w : Write) out c', on w.answer c = (.ok out, c') ↔ c.Writes w out c') ∧
      -- and the calls do what they do on the table, which answers for a name as the index does
      (c.table = tableAfter {} writes ∧ (∀ name, c.index.get? name = c.table.lookup name) ∧
        ∀ w : Write, (on w.answer c).1 = (w.onTable c.table).map (·.1)) := by
  intro c
  have hc : c.Indexed := after_indexed writes
  have hbuilt : c.table.Built := after_built writes
  have hindex : ∀ name id, c.index.get? name = some id ↔
      ∃ slot, c.slots[id]? = some slot ∧ slot.name = name :=
    fun name id => index_eq_some_iff hc hbuilt.nodup_names
  refine ⟨⟨fun slot hslot => ?_, hbuilt.nodup_names⟩, hindex, ?_, fun more id slot hslot => ?_,
    fun id body hslot => ?_, ⟨c.table.undefined_sublist_names, fun name => ?_⟩,
    ⟨fun w fault hfault => ?_, fun w out c' => answer_eq_ok_iff hc⟩, ?_, hc, fun w => ?_⟩
  · exact hbuilt.isIdentifier slot.name (List.mem_map_of_mem hslot)
  · exact range_append_handed (c := {}) (fun _ => rfl) writes
  · obtain ⟨later, hlater, hkept⟩ := after_keeps hc hslot more
    exact ⟨later, hlater, hkept.name, hkept.body⟩
  · have hnames := hbuilt.bareNames (TypeTable.get_eq_ok_iff.mpr hslot)
    refine ⟨(hindex body.name id).mpr ⟨.defined body, hslot, rfl⟩, fun name hname => ?_, ?_⟩
    · exact hnames name (body.generics_subset_bareNames hname)
    · rintro e rfl m hm
      exact hnames m.name (List.mem_map_of_mem hm)
  · exact TypeTable.mem_undefined_iff
  · obtain ⟨_, -, hon⟩ | ⟨out, c', hon, -⟩ := answer_cases hc w
    · rw [hon]
    · rw [hon] at hfault
      cases hfault
  · exact table_after (c := {}) (fun _ => rfl) writes
  · obtain ⟨fault, hfault, hon⟩ | ⟨out, c', hon, hwrites⟩ := answer_cases hc w
    · rw [hon, hfault]
      rfl
    · rw [hon, hwrites.onTable_eq]
      rfl

/-- An enumeration with a bad member reserves nothing, so that the name is free for what comes
    next, and a number that nothing was handed out for is filled by nothing. -/
example :
    handed {} [
      .insert (.enumeration { name := "Color", members := [⟨"not a name", .null⟩] }),
      .define 0 (.struct { name := "Color" }),
      .declare "Color",
      .insert (.struct { name := "Color" }),
      .insert (.alias { name := "Shade", ty := .reference 0 })] = [0, 1] := by
  decide +kernel

end Columns

end WireContract
