import WireContract.Proofs.Registration

/-!
# Tables written in place

A table is kept in two columns, the slots and an index of their names, and a call that writes to it
changes one after the other; what was changed before a failure would stay. Nothing ever does: every
call asks for all it needs before it writes, and to fill a slot that was reserved just now cannot
fail. So the calls do to the columns what they do to the table.

* `InPlace`: computations that write as they go;
* `Columns`: a table as it is kept, and the calls that write to it;
* `Columns.Indexed`: the index has the numbers of the slots;
* `declare_on`, `define_on`, `insert_on`: what a call leaves behind, whether it fails or not;
* `after_indexed`: the index is right after any calls.
-/

namespace WireContract

/-! ## 1. Writing as one goes -/

/-- A computation that writes to a state as it goes. What it has written before a failure stays. -/
abbrev InPlace (σ : Type) := ExceptT SchemaFault (StateM σ)

namespace InPlace

variable {σ α β : Type}

/-- The outcome of a computation on a state, and the state behind it. -/
def on (x : InPlace σ α) (s : σ) : Except SchemaFault α × σ := x.run.run s

/-- Stop here if something speaks against the call. -/
def refuseIf (against : Bool) (fault : SchemaFault) : InPlace σ Unit :=
  if against then throw fault else pure ()

@[simp] theorem on_pure (a : α) (s : σ) : on (pure a : InPlace σ α) s = (.ok a, s) := rfl

@[simp] theorem on_refuseIf (against : Bool) (fault : SchemaFault) (s : σ) :
    on (refuseIf against fault : InPlace σ Unit) s =
      (if against then .error fault else .ok (), s) := by
  cases against <;> rfl

@[simp] theorem on_get (s : σ) : on (get : InPlace σ σ) s = (.ok s, s) := rfl

@[simp] theorem on_modify (f : σ → σ) (s : σ) :
    on (modify f : InPlace σ Unit) s = (.ok (), f s) := rfl

@[simp] theorem on_ofExcept (x : Except SchemaFault α) (s : σ) :
    on (MonadExcept.ofExcept x : InPlace σ α) s = (x, s) := by
  cases x <;> rfl

/-- What follows on a failure is not done; what was written before is not taken back. -/
@[simp] theorem on_bind (x : InPlace σ α) (f : α → InPlace σ β) (s : σ) :
    on (x >>= f) s =
      match on x s with
      | (.ok a, s') => on (f a) s'
      | (.error fault, s') => (.error fault, s') := by
  unfold on
  rw [ExceptT.run_bind, StateT.run_bind]
  change (match x.run.run s with | (out, s') => _) = _
  rcases x.run.run s with ⟨fault | a, s'⟩ <;> rfl

@[simp] theorem on_map (f : α → β) (x : InPlace σ α) (s : σ) :
    on (f <$> x) s = ((on x s).1.map f, (on x s).2) := by
  unfold on
  rw [ExceptT.run_map, StateT.run_map]
  rcases x.run.run s with ⟨fault | a, s'⟩ <;> rfl

end InPlace

/-! ## 2. Columns -/

/-- A table as it is kept: its slots, and beside them the numbers of their names. -/
structure Columns where
  slots : List Slot := []
  index : Entries DefId := []

namespace Columns

open InPlace

/-- The table that the columns make up. -/
def table (c : Columns) : TypeTable := { slots := c.slots }

/-- Reserve the next number for a name. -/
def declare (name : String) : InPlace Columns DefId := do
  refuseIf (!Text.isIdentifier name) (.invalidIdentifier name)
  let c ← get
  refuseIf (c.index.has name) (.duplicateDefinition name)
  let id := c.slots.length
  modify fun c => { c with slots := c.slots ++ [.reserved name] }
  modify fun c => { c with index := c.index.put name id }
  return id

/-- Fill a slot that is reserved for the definition's name. -/
def define (id : DefId) (body : Definition) : InPlace Columns Unit := do
  MonadExcept.ofExcept (TypeTable.checkNames body)
  let c ← get
  match c.slots[id]? with
  | none => throw (.unknownDefinition id)
  | some (.reserved name) =>
    if name = body.name then modify fun c => { c with slots := c.slots.set id (.defined body) }
    else throw (.duplicateDefinition body.name)
  | some (.defined _) => throw (.duplicateDefinition body.name)

/-- Declare and define in one step. -/
def insert (body : Definition) : InPlace Columns DefId := do
  MonadExcept.ofExcept (TypeTable.checkNames body)
  let id ← declare body.name
  define id body
  return id

/-- Whether the index has the number of every name. -/
def Indexed (c : Columns) : Prop := ∀ name, c.index.get? name = c.table.lookup name

section Calls

variable {c : Columns}

theorem Indexed.has_eq (hc : c.Indexed) (name : String) :
    c.index.has name = (c.table.lookup name).isSome := by
  rw [Entries.has, hc name]

/-- **Declaring in place is declaring**: a name that is refused changes neither column. -/
theorem declare_on (hc : c.Indexed) (name : String) :
    on (declare name) c =
      match c.table.declare name with
      | .error fault => (.error fault, c)
      | .ok (id, t) => (.ok id, { slots := t.slots, index := c.index.put name id }) := by
  rw [declare, TypeTable.declare]
  by_cases hident : Text.isIdentifier name = true
  · by_cases hknown : (c.table.lookup name).isSome = true
    · simp [hident, hc.has_eq, hknown]
    · have htable : c.table.slots = c.slots := rfl
      simp [hident, hc.has_eq, hknown, htable, TypeTable.size, Except.map]
  · simp [hident]

/-- **Defining in place is defining**: what fills no slot changes none. -/
theorem define_on (id : DefId) (body : Definition) :
    on (define id body) c =
      match c.table.define id body with
      | .error fault => (.error fault, c)
      | .ok t => (.ok (), { c with slots := t.slots }) := by
  have htable : c.table.slots = c.slots := rfl
  rw [define, TypeTable.define, htable]
  simp only [on_bind, on_ofExcept, on_get]
  cases TypeTable.checkNames body with
  | error fault => rfl
  | ok _ =>
    simp only [bind, Except.bind]
    cases c.slots[id]? with
    | none => rfl
    | some slot =>
      cases slot with
      | reserved name =>
        dsimp only
        by_cases hname : name = body.name
        · rw [if_pos hname, if_pos hname]
          rfl
        · rw [if_neg hname, if_neg hname]
          rfl
      | defined other => rfl

/-- **Inserting in place is inserting.** The slot that is reserved on the way is filled in any case:
    it has the definition's name, and all names have been looked at. -/
theorem insert_on (hc : c.Indexed) (body : Definition) :
    on (insert body) c =
      match c.table.insert body with
      | .error fault => (.error fault, c)
      | .ok (id, t) => (.ok id, { slots := t.slots, index := c.index.put body.name id }) := by
  rw [insert, TypeTable.insert]
  simp only [on_bind, on_ofExcept]
  cases hnames : TypeTable.checkNames body with
  | error fault => rfl
  | ok _ =>
    simp only [declare_on hc, define_on, bind, Except.bind]
    cases hdeclared : c.table.declare body.name with
    | error fault => rfl
    | ok declared =>
      obtain ⟨id, t⟩ := declared
      have hreserved : t.slots[id]? = some (.reserved body.name) := by
        obtain ⟨rfl, hslots⟩ := TypeTable.declare_yields c.table body.name _ hdeclared
        exact hslots ▸ List.getElem?_concat_length
      have hfilled : t.define id body = .ok { slots := t.slots.set id (.defined body) } :=
        TypeTable.define_eq_ok hnames hreserved
      have htable : table { slots := t.slots, index := c.index.put body.name id } = t := rfl
      simp only [htable, hfilled]
      rfl

end Calls

/-! ## 3. The index -/

section Index

variable {c c' : Columns}

/-- A new slot is indexed by writing its number under its name. -/
theorem Indexed.concat (hc : c.Indexed) {slot : Slot} (hnew : slot.name ∉ c.table.names)
    (hslots : c'.slots = c.slots ++ [slot])
    (hindex : c'.index = c.index.put slot.name c.slots.length) : c'.Indexed := by
  intro name
  have hnames : c'.table.names = c.table.names ++ [slot.name] := by
    rw [TypeTable.names, table, hslots, List.map_append]
    rfl
  rw [TypeTable.lookup_eq_findIdx?, hnames, List.findIdx?_append,
    ← TypeTable.lookup_eq_findIdx?, hindex]
  by_cases hname : name = slot.name
  · subst hname
    have hunknown : c.table.lookup slot.name = none :=
      Option.not_isSome_iff_eq_none.mp fun h => hnew (TypeTable.isSome_lookup_iff.mp h)
    rw [Entries.get?_put_self, hunknown]
    simp [TypeTable.size, table]
  · have hne : (slot.name == name) = false := beq_false_of_ne (Ne.symm hname)
    rw [Entries.get?_put_of_ne _ _ _ _ hname, hc name]
    simp [hne]

/-- A slot that keeps its name keeps its number. -/
theorem Indexed.congr (hc : c.Indexed) (hnames : c'.table.names = c.table.names)
    (hindex : c'.index = c.index) : c'.Indexed := by
  intro name
  rw [hindex, hc name, TypeTable.lookup_congr hnames]

/-- A call that writes to a table. -/
inductive Write where
  | declare (name : String)
  | define (id : DefId) (body : Definition)
  | insert (body : Definition)

/-- What the call does, whatever it returns. -/
def Write.call : Write → InPlace Columns Unit
  | .declare name => do
    let _ ← Columns.declare name
  | .define id body => Columns.define id body
  | .insert body => do
    let _ ← Columns.insert body

/-- **A call keeps the index right, also one that fails.** -/
theorem Indexed.write (hc : c.Indexed) (w : Write) : (on w.call c).2.Indexed := by
  cases w with
  | declare name =>
    rw [Write.call, on_bind, declare_on hc]
    cases hdeclared : c.table.declare name with
    | error fault => exact hc
    | ok declared =>
      obtain ⟨id, t⟩ := declared
      obtain ⟨rfl, hslots⟩ := TypeTable.declare_yields c.table name _ hdeclared
      obtain ⟨-, hnew, -⟩ := TypeTable.declare_names c.table name _ hdeclared
      have hname : (Slot.reserved name).name ∉ c.table.names := hnew
      exact hc.concat hname hslots rfl
  | define id body =>
    rw [Write.call, define_on]
    cases hdefined : c.table.define id body with
    | error fault => exact hc
    | ok t => exact hc.congr (TypeTable.define_names c.table id body t hdefined) rfl
  | insert body =>
    rw [Write.call, on_bind, insert_on hc]
    cases hinserted : c.table.insert body with
    | error fault => exact hc
    | ok inserted =>
      obtain ⟨id, t⟩ := inserted
      obtain ⟨rfl, hslots⟩ := TypeTable.insert_yields c.table body _ hinserted
      obtain ⟨-, hnew, -⟩ := TypeTable.insert_names c.table body _ hinserted
      have hname : (Slot.defined body).name ∉ c.table.names := hnew
      exact hc.concat hname hslots rfl

/-- The columns behind some calls, of which any may have failed. -/
def after (c : Columns) (writes : List Write) : Columns :=
  writes.foldl (fun c w => (on w.call c).2) c

/-- **The index is right after any calls.** -/
theorem after_indexed (writes : List Write) : (after {} writes).Indexed := by
  have hrun : ∀ c : Columns, c.Indexed → (after c writes).Indexed := by
    induction writes with
    | nil => exact fun c hc => hc
    | cons w rest ih => exact fun c hc => ih _ (hc.write w)
  exact hrun {} fun _ => rfl

end Index

end Columns

end WireContract
