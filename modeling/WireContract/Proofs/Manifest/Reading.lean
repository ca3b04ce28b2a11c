import WireContract.Manifest.Load
import WireContract.Proofs.Outcome

/-!
# What is read of a manifest

A record is read field by field into a blank value, so what holds of the blank and is kept by every
field holds of what is read. The members of an enumeration are read into a table, in which a
repeated name takes its last value: whatever a text repeats, no enumeration has a member twice.

* `Record.read_yields`: what reading a record keeps;
* `Part.entries_yields`: tables have each name once, with values of the kind that is read;
* `TypeDecl.EnumeratesOnce`, `ofTexts_enumeratesOnce`: enumerations.
-/

namespace WireContract

namespace Manifest

open Json (Document)

/-! ## 1. Records -/

section Records

variable {α β : Type} {p : α → Prop} {q : β → Prop} {r : Record β} {part : Part}

theorem Part.placeMember_yields {outcome : Except Mishap α} (h : Yields outcome p) :
    Yields (part.placeMember outcome) p := by
  cases outcome with
  | ok a => exact h
  | error mishap => exact .error _

theorem Part.placeItem_yields {outcome : Except Mishap α} (h : Yields outcome p) :
    Yields (part.placeItem outcome) p := by
  cases outcome with
  | ok a => exact h
  | error mishap => exact .error _

/-- A field that keeps a property of what was read before. -/
def RecordField.Keeps (f : RecordField β) (q : β → Prop) : Prop :=
  ∀ part b, q b → Yields (f.read part b) q

/-- A field keeps what storing a value of its kind keeps. -/
theorem RecordField.of_keeps {name : String} {required : Bool} {read : Part → Except Mishap α}
    {store : α → β → β} (hread : ∀ part, Yields (read part) p)
    (hstore : ∀ a b, p a → q b → q (store a b)) :
    (RecordField.of name required read store).Keeps q :=
  fun part b hb => (hread part).map fun a ha => hstore a b ha hb

/-- So does one that stores a value of any kind. -/
theorem RecordField.of_keeps_any {name : String} {required : Bool} {read : Part → Except Mishap α}
    {store : α → β → β} (hstore : ∀ a b, q b → q (store a b)) :
    (RecordField.of name required read store).Keeps q :=
  of_keeps (fun _ => .always) fun a b _ => hstore a b

theorem Record.readMembers_yields (hfields : ∀ f ∈ r.fields, f.Keeps q) (seen : List String)
    (members : List (String × Nat × Document)) {b : β} (hb : q b) :
    Yields (r.readMembers part seen b members) fun result => q result.2 := by
  induction members generalizing seen b with
  | nil => exact .ok hb
  | cons member rest ih =>
    obtain ⟨key, afterKey, d⟩ := member
    rw [Record.readMembers]
    split
    · split
      · exact ih seen hb
      · exact .error _
    · rename_i f hfield
      have hf : f ∈ r.fields := List.mem_of_find?_eq_some hfield
      have hread := part.placeMember_yields (hfields f hf (part.inner (.member key) d) b hb)
      split
      · exact .error _
      · split
        · exact .error _
        · rename_i b' hb'
          exact ih (key :: seen) (hread b' hb')

theorem Record.readObject_yields (hblank : q r.blank) (hfields : ∀ f ∈ r.fields, f.Keeps q)
    (members : List (String × Nat × Document)) (ending : Json.Ending) :
    Yields (r.readObject part members ending) q := by
  refine (readMembers_yields hfields [] members hblank).bind fun result hresult => ?_
  obtain ⟨seen, b⟩ := result
  dsimp only
  split
  · exact .error _
  · split
    · exact .error _
    · exact .ok hresult

theorem Record.readItems_yields {ending : Json.Ending} {fields : List (RecordField β)}
    (hfields : ∀ f ∈ fields, f.Keeps q) (index behind : Nat) {b : β} (hb : q b)
    (items : List Document) : Yields (r.readItems part ending fields index behind b items) q := by
  induction fields generalizing index behind b items with
  | nil =>
    rw [Record.readItems]
    split
    · split
      · exact .ok hb
      · exact .error _
    · split
      · exact .error _
      · exact .ok hb
  | cons f rest ih =>
    rw [List.forall_mem_cons] at hfields
    cases items with
    | nil =>
      unfold Record.readItems
      split
      · exact .error _
      · split
        · exact .error _
        · exact .ok hb
    | cons d others =>
      have hread := part.placeItem_yields (hfields.1 (part.inner (.item index) d) b hb)
      rw [Record.readItems]
      split
      · exact .error _
      · rename_i b' hb'
        exact ih hfields.2 (index + 1) d.stop (hread b' hb') others

/-- **What holds of the blank and is kept by every field holds of what is read.** -/
theorem Record.read_yields (hblank : q r.blank) (hfields : ∀ f ∈ r.fields, f.Keeps q)
    (part : Part) : Yields (r.read part) q := by
  rw [Record.read]
  split
  · exact readObject_yields hblank hfields _ _
  · exact readItems_yields hfields 0 _ hblank _
  · exact .error _

end Records

/-! ## 2. Tables -/

section Tables

variable {α : Type} {p : α → Prop} {read : Part → Except Mishap α}

/-- A table that has each name once, with values of a kind. -/
def IsTable (p : α → Prop) (es : Entries α) : Prop :=
  es.keys.Nodup ∧ ∀ e ∈ es, p e.2

theorem Part.entriesFrom_yields (h : ∀ part, Yields (read part) p) (part : Part) {done : Entries α}
    (hdone : IsTable p done) (members : List (String × Nat × Document)) :
    Yields (part.entriesFrom read done members) (IsTable p) := by
  induction members generalizing done with
  | nil => exact .ok hdone
  | cons member rest ih =>
    obtain ⟨key, afterKey, d⟩ := member
    rw [Part.entriesFrom]
    refine (part.placeMember_yields (h _)).bind fun a ha => ih ?_
    refine ⟨Entries.nodup_keys_put hdone.1 key a, fun e he => ?_⟩
    rcases Entries.mem_put he with he | rfl
    · exact hdone.2 e he
    · exact ha

/-- **A table that is read has each name once.** -/
theorem Part.entries_yields (h : ∀ part, Yields (read part) p) (part : Part) :
    Yields (Part.entries read part) (IsTable p) := by
  rw [Part.entries]
  split
  · have hnone : IsTable p ([] : Entries α) := ⟨List.nodup_nil, List.forall_mem_nil _⟩
    refine (part.entriesFrom_yields h hnone _).bind fun es hes => ?_
    split
    · exact .error _
    · exact .ok hes
  · exact .error _

end Tables

end Manifest

/-! ## 3. Enumerations -/

/-- Whether a declaration has no member of an enumeration twice. -/
def TypeDecl.EnumeratesOnce : TypeDecl → Prop
  | .struct _ _ _ => True
  | .enumeration _ members => members.keys.Nodup
  | .alias _ _ => True

namespace Manifest

open Json (Document)

/-- Whether no declaration of a manifest has a member of an enumeration twice. -/
def EnumeratesOnce (m : Manifest) : Prop :=
  ∀ e ∈ m.types, e.2.EnumeratesOnce

theorem Kind.read_yields (kind : Kind) (part : Part) :
    Yields (kind.read part) TypeDecl.EnumeratesOnce := by
  cases kind with
  | struct => exact Yields.always.map fun _ _ => trivial
  | enumeration =>
    have hjson : ∀ part, Yields (Part.json part) fun _ => True := fun _ => .always
    have hfields : ∀ f ∈ enumRecord.fields, f.Keeps fun d => d.2.keys.Nodup :=
      List.forall_mem_cons.mpr ⟨RecordField.of_keeps_any fun _ _ hd => hd,
        List.forall_mem_singleton.mpr
          (RecordField.of_keeps (Part.entries_yields hjson) fun _ _ ha _ => ha.1)⟩
    exact (Record.read_yields List.nodup_nil hfields part).map fun _ hd => hd
  | «alias» => exact Yields.always.map fun _ _ => trivial

/-- **No enumeration that is read has a member twice.** -/
theorem Part.typeDecl_yields (part : Part) : Yields part.typeDecl TypeDecl.EnumeratesOnce := by
  rw [Part.typeDecl]
  split
  · refine Yields.always.bind fun result _ => ?_
    obtain ⟨kind, others⟩ := result
    dsimp only
    split
    · exact .error _
    · split
      · exact .error _
      · rename_i kind
        exact Kind.read_yields kind _
  · exact .error _
  · exact .error _
  · refine Yields.always.bind fun kind _ => ?_
    split
    · exact .error _
    · exact kind.read_yields _
  · exact .error _

theorem read_enumeratesOnce (text : List UInt8) : Yields (read text) EnumeratesOnce := by
  have hfields : ∀ f ∈ manifestRecord.fields, f.Keeps EnumeratesOnce :=
    List.forall_mem_cons.mpr ⟨RecordField.of_keeps_any fun _ _ hm => hm,
      List.forall_mem_cons.mpr
        ⟨RecordField.of_keeps (Part.entries_yields Part.typeDecl_yields) fun _ _ ha _ => ha.2,
          List.forall_mem_singleton.mpr (RecordField.of_keeps_any fun _ _ hm => hm)⟩⟩
  have hread := Record.read_yields (List.forall_mem_nil _) hfields (.ofText text)
  rw [read]
  split
  · rename_i m hm
    exact .ok (hread m hm)
  · exact .error _

theorem mergeTypes_yields {p : TypeDecl → Prop} (types : Entries TypeDecl)
    (others : List (String × TypeDecl)) (htypes : ∀ e ∈ types, p e.2)
    (hothers : ∀ e ∈ others, p e.2) :
    Yields (mergeTypes types others) fun merged => ∀ e ∈ merged, p e.2 := by
  induction others generalizing types with
  | nil => exact .ok htypes
  | cons e rest ih =>
    rw [List.forall_mem_cons] at hothers
    rw [mergeTypes]
    split
    · exact .error _
    · refine ih _ (List.forall_mem_append.mpr ⟨htypes, ?_⟩) hothers.2
      exact List.forall_mem_singleton.mpr hothers.1

theorem takeUp_enumeratesOnce {m next : Manifest} (hm : m.EnumeratesOnce)
    (hnext : next.EnumeratesOnce) : Yields (m.takeUp next) EnumeratesOnce := by
  have hmerge : Yields (m.merge next) EnumeratesOnce :=
    (mergeTypes_yields m.types next.types hm hnext).bind fun types htypes => .ok htypes
  rw [takeUp]
  split
  · rename_i merged hmerged
    exact .ok (hmerge merged hmerged)
  · exact .error _

theorem readOnto_enumeratesOnce {m : Manifest} (hm : m.EnumeratesOnce) (texts : List (List UInt8)) :
    Yields (m.readOnto texts) EnumeratesOnce := by
  induction texts generalizing m with
  | nil => exact .ok hm
  | cons text rest ih =>
    rw [readOnto]
    split
    · exact .error _
    · rename_i next hnext
      have hmerged := takeUp_enumeratesOnce hm (read_enumeratesOnce text next hnext)
      split
      · rename_i merged htaken
        exact ih (hmerged merged htaken)
      · exact .error _

/-- **Manifests have no member of an enumeration twice**, whatever their texts repeat. -/
theorem ofTexts_enumeratesOnce (texts : List (List UInt8)) :
    Yields (ofTexts texts) EnumeratesOnce := by
  have hempty : empty.EnumeratesOnce := List.forall_mem_nil _
  exact readOnto_enumeratesOnce hempty texts

end Manifest

end WireContract
