import WireContract.Proofs.Wire.Cutoff
import WireContract.Proofs.Wire.Places
import WireContract.Proofs.Wire.Trimming

/-!
# Checked values are made nothing else of

What the check has made of a value it makes of itself: what could be dropped is gone and what could
be filled in is there. Two things may be in the way of it. A member of a union may take a value only
because another one has dropped what kept it from doing so; and a default is filled in as it is
written, whatever its field's type would make of it. Where neither can happen a second check changes
nothing, and it can only come to its last level, in a default that is deeper than what was there
before.

* `Steady`: the types from which no check comes to either of the two;
* `Repeats`: a value that a comparison makes nothing else of;
* `checkItems_repeats` and its neighbours: every part of the check gives such values;
* `Laid`: what is made of the members of an object, field by field;
* `checked_values_stand`: the check twice.
-/

namespace WireContract.Wire

/-! ## 1. Levels and places -/

/-- What is taken with some levels left, at some place, is taken with any number and anywhere, as
    far as the levels go. -/
theorem cuts_of_ok {types : TypeTable} {left : Nat} {ty : Ty} {v out : Json} {path : Path}
    (h : check types left ty v path = .ok out) (left' : Nat) (place : Path) :
    Cuts (check types left' ty v place) (.ok out) := by
  have hplace := check_ok_anywhere h place
  rcases Nat.le_total left' left with hle | hle
  · obtain ⟨more, rfl⟩ := Nat.exists_eq_add_of_le hle
    rw [← hplace]
    exact check_cuts types left' more ty v place
  · obtain ⟨more, rfl⟩ := Nat.exists_eq_add_of_le hle
    have hmore := check_cuts types left more ty v place
    rw [hplace] at hmore
    rw [hmore.eq_of_not_endsTooDeep (by rintro ⟨_, hdeep⟩; cases hdeep)]
    exact .same _

/-! ## 2. The parts of the check -/

/-- A comparison makes nothing else of the value, as far as the levels go. -/
def Repeats (checker : Checker) (ty : Ty) (path : Path) (v : Json) : Prop :=
  Cuts (checker ty v path) (.ok v)

/-- What is taken as it is is taken again. -/
theorem cuts_of_unchanged {f : Json → Except Fault Json} {v : Json} (h : Yields (f v) (· = v)) :
    Yields (f v) fun out => Cuts (f out) (.ok out) := by
  intro out hout
  obtain rfl : out = v := h out hout
  rw [hout]
  exact .same _

section Parts

variable {checker : Checker}

theorem checkItems_repeats {elem : Ty}
    (h : ∀ v path, Yields (checker elem v path) (Repeats checker elem path)) (path : Path)
    (index : Nat) (items : List Json) :
    Yields (checkItems checker elem path index items) fun outs =>
      Cuts (checkItems checker elem path index outs) (.ok outs) := by
  induction items generalizing index with
  | nil => exact .ok (.same _)
  | cons v rest ih =>
    unfold checkItems
    refine (h v _).bind fun out hout => (ih (index + 1)).map fun outs houts => ?_
    exact hout.behind (houts.behind (.same _))

theorem checkPlaces_repeats {elems : List Ty}
    (h : ∀ ty ∈ elems, ∀ v path, Yields (checker ty v path) (Repeats checker ty path)) (path : Path)
    (index : Nat) {items : List Json} (hl : items.length = elems.length) :
    Yields (checkPlaces checker path index elems items) fun outs =>
      outs.length = elems.length ∧ Cuts (checkPlaces checker path index elems outs) (.ok outs) := by
  induction elems generalizing index items with
  | nil =>
    obtain rfl := List.length_eq_zero_iff.mp hl
    exact .ok ⟨rfl, .same _⟩
  | cons ty tys ih =>
    cases items with
    | nil => cases hl
    | cons v rest =>
      rw [List.forall_mem_cons] at h
      unfold checkPlaces
      refine (h.1 v _).bind fun out hout =>
        (ih h.2 (index + 1) (Nat.succ.inj hl)).map fun outs houts => ?_
      exact ⟨congrArg Nat.succ houts.1, hout.behind (houts.2.behind (.same _))⟩

/-- A member of a record that is taken again. -/
def EntryRepeats (checker : Checker) (keyTy valueTy : Ty) (path : Path) (e : String × Json) :
    Prop :=
  checkKey checker keyTy e.1 (path ++ [.member e.1]) = .ok () ∧
    Repeats checker valueTy (path ++ [.member e.1]) e.2

theorem checkEntries_repeats {keyTy valueTy : Ty}
    (h : ∀ v path, Yields (checker valueTy v path) (Repeats checker valueTy path)) {path : Path}
    (members : Entries Json) {done : Entries Json} (hkeys : done.keys.Nodup)
    (hdone : ∀ e ∈ done, EntryRepeats checker keyTy valueTy path e) :
    Yields (checkEntries checker keyTy valueTy path members done) fun outs =>
      outs.keys.Nodup ∧ ∀ e ∈ outs, EntryRepeats checker keyTy valueTy path e := by
  induction members generalizing done with
  | nil => exact .ok ⟨hkeys, hdone⟩
  | cons e rest ih =>
    obtain ⟨key, v⟩ := e
    unfold checkEntries
    have hkey : Yields (checkKey checker keyTy key (path ++ [.member key])) fun _ =>
        checkKey checker keyTy key (path ++ [.member key]) = .ok () := fun _ hk => hk
    refine hkey.bind fun _ hk => (h v _).bind fun out hout => ?_
    refine ih (Entries.nodup_keys_put hkeys key out) fun e he => ?_
    rcases Entries.mem_put he with he | rfl
    · exact hdone e he
    · exact ⟨hk, hout⟩

/-- Members that are taken again and have keys of their own stay the members they are. -/
theorem checkEntries_of_repeats {keyTy valueTy : Ty} {path : Path} {members done : Entries Json}
    (hkeys : (done.keys ++ members.keys).Nodup)
    (h : ∀ e ∈ members, EntryRepeats checker keyTy valueTy path e) :
    Cuts (checkEntries checker keyTy valueTy path members done) (.ok (done ++ members)) := by
  induction members generalizing done with
  | nil =>
    rw [List.append_nil]
    exact .same _
  | cons e rest ih =>
    obtain ⟨key, v⟩ := e
    rw [List.forall_mem_cons] at h
    rw [Entries.keys_cons] at hkeys
    rw [checkEntries, h.1.1]
    refine h.1.2.behind ?_
    rw [Entries.put_of_not_mem _ _ _ (not_mem_of_nodup_append hkeys)]
    have hnext : ((done ++ [(key, v)]).keys ++ Entries.keys rest).Nodup := by simpa using hkeys
    simpa using ih hnext h.2

/-! ## 3. Structs -/

/-- What is made of the members of an object, field by field: a field has a value that is taken
    again, or it is left out because it has no default and is not required. -/
inductive Laid (repeats : Field → Json → Prop) : List Field → Entries Json → Prop where
  | nil : Laid repeats [] []
  | written (f : Field) (w : Json) (rest : List Field) (outs : Entries Json) (hw : repeats f w)
      (h : Laid repeats rest outs) : Laid repeats (f :: rest) ((f.name, w) :: outs)
  | left (f : Field) (rest : List Field) (outs : Entries Json) (hdefault : f.default = none)
      (hrequired : f.isRequired = false) (h : Laid repeats rest outs) :
      Laid repeats (f :: rest) outs

/-- A name that no field has is not there. -/
theorem Laid.get?_eq_none {repeats : Field → Json → Prop} {fields : List Field}
    {outs : Entries Json} (h : Laid repeats fields outs) {name : String}
    (hname : name ∉ fields.map (·.name)) : outs.get? name = none := by
  induction h with
  | nil => rfl
  | written f w rest outs hw h ih =>
    rw [List.map_cons, List.mem_cons, not_or] at hname
    rw [Entries.get?_cons_of_ne hname.1, ih hname.2]
  | left f rest outs hdefault hrequired h ih =>
    exact ih fun hmem => hname (List.mem_cons_of_mem _ hmem)

/-- The comparison makes nothing else of the value of a field. -/
def FieldRepeats (checker : Checker) (bindings : Ty.Bindings) (path : Path) (f : Field)
    (w : Json) : Prop :=
  Repeats checker (f.shape.1.substitute bindings) (path ++ [.member f.name]) w

theorem checkMembers_lays {bindings : Ty.Bindings} {path : Path} {fields : List Field}
    (h : ∀ f ∈ fields, ∀ v,
      Yields (checker (f.shape.1.substitute bindings) v (path ++ [.member f.name]))
        (FieldRepeats checker bindings path f))
    (hdefaults : ∀ f ∈ fields, ∀ default, f.default = some default →
      FieldRepeats checker bindings path f default)
    (object : Entries Json) {done : Entries Json}
    (hkeys : (done.keys ++ fields.map (·.name)).Nodup) :
    Yields (checkMembers checker bindings object path fields done) fun all =>
      ∃ outs, all = done ++ outs ∧ Laid (FieldRepeats checker bindings path) fields outs := by
  induction fields generalizing done with
  | nil => exact .ok ⟨[], (List.append_nil done).symm, .nil⟩
  | cons f rest ih =>
    rw [List.forall_mem_cons] at h hdefaults
    rw [List.map_cons] at hkeys
    have hnew : f.name ∉ done.keys := not_mem_of_nodup_append hkeys
    have hwritten : ∀ w, FieldRepeats checker bindings path f w →
        Yields (checkMembers checker bindings object path rest (done.put f.name w)) fun all =>
          ∃ outs, all = done ++ outs ∧
            Laid (FieldRepeats checker bindings path) (f :: rest) outs := by
      intro w hw
      rw [Entries.put_of_not_mem _ _ _ hnew]
      refine (ih h.2 hdefaults.2 (by simpa using hkeys)).mono fun all hall => ?_
      obtain ⟨outs, rfl, houts⟩ := hall
      exact ⟨(f.name, w) :: outs, by simp, .written f w rest outs hw houts⟩
    unfold checkMembers
    split
    · exact (h.1 _).bind hwritten
    · split
      · rename_i default hdefault
        exact hwritten default (hdefaults.1 default hdefault)
      · rename_i hdefault
        split
        · exact .error _
        · rename_i hrequired
          have hnext : (done.keys ++ rest.map (·.name)).Nodup :=
            hkeys.sublist ((List.sublist_cons_self _ _).append_left _)
          refine (ih h.2 hdefaults.2 hnext).mono fun all hall => ?_
          obtain ⟨outs, rfl, houts⟩ := hall
          exact ⟨outs, rfl, .left f rest outs hdefault (by simpa using hrequired) houts⟩

/-- Members that are laid out field by field stay the members they are. -/
theorem checkMembers_of_laid {bindings : Ty.Bindings} {path : Path} {fields : List Field}
    {outs : Entries Json} (h : Laid (FieldRepeats checker bindings path) fields outs)
    {object done : Entries Json} (hobject : ∀ f ∈ fields, object.get? f.name = outs.get? f.name)
    (hkeys : (done.keys ++ fields.map (·.name)).Nodup) :
    Cuts (checkMembers checker bindings object path fields done) (.ok (done ++ outs)) := by
  induction h generalizing done with
  | nil =>
    rw [List.append_nil]
    exact .same _
  | written f w rest outs hw h ih =>
    rw [List.forall_mem_cons, Entries.get?_cons_self] at hobject
    rw [List.map_cons] at hkeys
    have hne : ∀ g ∈ rest, g.name ≠ f.name := fun g hg heq =>
      (List.nodup_cons.mp (List.nodup_append.mp hkeys).2.1).1 (heq ▸ List.mem_map_of_mem hg)
    have hrest : ∀ g ∈ rest, object.get? g.name = outs.get? g.name := fun g hg =>
      (hobject.2 g hg).trans (Entries.get?_cons_of_ne (hne g hg) w outs)
    unfold checkMembers
    rw [hobject.1]
    refine hw.behind ?_
    rw [Entries.put_of_not_mem _ _ _ (not_mem_of_nodup_append hkeys)]
    have hnext : ((done ++ [(f.name, w)]).keys ++ rest.map (·.name)).Nodup := by simpa using hkeys
    simpa using ih hrest hnext
  | left f rest outs hdefault hrequired h ih =>
    rw [List.forall_mem_cons] at hobject
    rw [List.map_cons] at hkeys
    have hnone : object.get? f.name = none :=
      hobject.1.trans
        (h.get?_eq_none (List.nodup_cons.mp (List.nodup_append.mp hkeys).2.1).1)
    unfold checkMembers
    rw [hnone, hdefault, hrequired]
    exact ih hobject.2 (hkeys.sublist ((List.sublist_cons_self _ _).append_left _))

theorem checkFields_repeats {s : StructDef} (hs : s.FieldsDistinct) {args : List Ty} {path : Path}
    (h : s.generics.length = args.length → ∀ f ∈ s.fields, ∀ v,
      Yields (checker (f.shape.1.substitute (Ty.bind s.generics args)) v
        (path ++ [.member f.name])) (FieldRepeats checker (Ty.bind s.generics args) path f))
    (hdefaults : ∀ f ∈ s.fields, ∀ default, f.default = some default →
      FieldRepeats checker (Ty.bind s.generics args) path f default) (v : Json) :
    Yields (checkFields checker s args v path) fun outs =>
      Cuts (checkFields checker s args (.object outs) path) (.ok outs) := by
  have hkeys : (Entries.keys ([] : Entries Json) ++ s.fields.map (·.name)).Nodup := hs
  unfold checkFields checkArity
  split
  · rename_i hl
    cases v.members? with
    | none => exact .error _
    | some object =>
      refine (checkMembers_lays (h hl) hdefaults object hkeys).mono ?_
      rintro _ ⟨outs, rfl, hlaid⟩
      exact checkMembers_of_laid hlaid (fun _ _ => rfl) hkeys
  · exact .error _

/-! ## 4. Containers -/

theorem checkContainer_items_repeats {elem : Ty}
    (h : ∀ v path, Yields (checker elem v path) (Repeats checker elem path)) (v : Json)
    (path : Path) :
    Yields (checkContainer.items checker v path elem) fun out =>
      Cuts (checkContainer.items checker out path elem) (.ok out) := by
  unfold checkContainer.items
  cases v.items? with
  | none => exact .error _
  | some items => exact (checkItems_repeats h path 0 items).map fun outs houts => houts.map _

theorem checkContainer_places_repeats {elems : List Ty}
    (h : ∀ ty ∈ elems, ∀ v path, Yields (checker ty v path) (Repeats checker ty path)) (v : Json)
    (path : Path) :
    Yields (checkContainer checker .tuple elems false v path) fun out =>
      Cuts (checkContainer checker .tuple elems false out path) (.ok out) := by
  simp only [checkContainer_tuple]
  cases v.items? with
  | none => exact .error _
  | some items =>
    dsimp only
    split
    · exact .error _
    · rename_i hl
      refine (checkPlaces_repeats h path 0 (Classical.not_not.mp hl)).map fun outs houts => ?_
      have hlength : ¬ outs.length ≠ elems.length := fun hne => hne houts.1
      simp only [Json.items?, if_neg hlength]
      exact houts.2.map _

theorem checkContainer_entries_repeats {keyTy valueTy : Ty}
    (h : ∀ v path, Yields (checker valueTy v path) (Repeats checker valueTy path)) (v : Json)
    (path : Path) :
    Yields (checkContainer checker .record [keyTy, valueTy] false v path) fun out =>
      Cuts (checkContainer checker .record [keyTy, valueTy] false out path) (.ok out) := by
  simp only [checkContainer_record]
  cases v.members? with
  | none => exact .error _
  | some members =>
    have hnil : (Entries.keys ([] : Entries Json)).Nodup := List.nodup_nil
    refine (checkEntries_repeats h members hnil (by simp)).map fun outs houts => ?_
    have hkeys : (Entries.keys ([] : Entries Json) ++ outs.keys).Nodup := houts.1
    exact (checkEntries_of_repeats hkeys houts.2).map _

theorem checkContainer_repeats {kind : ContainerKind} {elems : List Ty} {variadic : Bool}
    (h : ∀ elem ∈ elems, ∀ v path, Yields (checker elem v path) (Repeats checker elem path))
    (v : Json) (path : Path) :
    Yields (checkContainer checker kind elems variadic v path) fun out =>
      Cuts (checkContainer checker kind elems variadic out path) (.ok out) := by
  by_cases hfits : kind.Admits elems.length variadic
  · cases hfits.form with
    | array elem => exact checkContainer_items_repeats (h elem List.mem_cons_self) v path
    | variadic elem => exact checkContainer_items_repeats (h elem List.mem_cons_self) v path
    | tuple => exact checkContainer_places_repeats h v path
    | record key value => exact checkContainer_entries_repeats (h value (by simp)) v path
  · rw [checkContainer_of_not_admits hfits]
    exact .error _

/-! ## 5. Definitions -/

theorem checkDefinition_repeats {body : Definition} {args : List Ty} {path : Path}
    (hfields : ∀ s, body = .struct s → s.FieldsDistinct)
    (hdefaults : ∀ s, body = .struct s → ∀ f ∈ s.fields, ∀ default, f.default = some default →
      FieldRepeats checker (Ty.bind s.generics args) path f default)
    (h : body.generics.length = args.length → ∀ ty ∈ body.expressions, ∀ v path,
      Yields (checker (ty.substitute (Ty.bind body.generics args)) v path)
        (Repeats checker (ty.substitute (Ty.bind body.generics args)) path)) (v : Json) :
    Yields (checkDefinition checker body args v path) fun out =>
      Cuts (checkDefinition checker body args out path) (.ok out) := by
  cases body with
  | struct s =>
    have hinside : s.generics.length = args.length → ∀ f ∈ s.fields, ∀ v,
        Yields (checker (f.shape.1.substitute (Ty.bind s.generics args)) v
          (path ++ [.member f.name])) (FieldRepeats checker (Ty.bind s.generics args) path f) :=
      fun hl f hf v => h hl _ (List.mem_map_of_mem hf) v _
    exact (checkFields_repeats (hfields s rfl) hinside (hdefaults s rfl) v).map
      fun outs houts => houts.map Json.object
  | enumeration e =>
    have hsame := accept_yields (e.members.any fun m => m.value == v) v path (.memberOf e.name)
    refine cuts_of_unchanged (f := fun v => checkDefinition checker (.enumeration e) args v path) ?_
    exact hsame.mono fun _ hout => hout.1
  | «alias» a =>
    change Yields (checkArity a.name a.generics args >>= fun _ => checker _ v path) fun out =>
      Cuts (checkArity a.name a.generics args >>= fun _ => checker _ out path) (.ok out)
    unfold checkArity
    split
    · rename_i hl
      exact h hl a.ty List.mem_cons_self v path
    · exact .error _

end Parts

/-! ## 6. The check -/

/-- The types from which a check comes to no union, to no struct with two fields of one name, and to
    no default of which its field's type would make something else. -/
structure Steady (types : TypeTable) (ty : Ty) : Prop where
  noUnion : ∀ members, ¬ Reaches types ty (.union members)
  fieldsDistinct : ∀ target args s, Reaches types ty (.named target args) →
    types.get target = .ok (.struct s) → s.FieldsDistinct
  defaults : ∀ target args s, Reaches types ty (.named target args) →
    types.get target = .ok (.struct s) → ∀ f ∈ s.fields, ∀ default, f.default = some default →
      ∃ level path,
        checkFrom types level (f.shape.1.substitute (Ty.bind s.generics args)) default path =
          .ok default

/-- What such a type hands on is such a type. -/
theorem Steady.hands {types : TypeTable} {ty inner : Ty} (h : Steady types ty)
    (hinner : Hands types ty inner) : Steady types inner where
  noUnion members hreaches := h.noUnion members (.head hinner hreaches)
  fieldsDistinct target args s hreaches := h.fieldsDistinct target args s (.head hinner hreaches)
  defaults target args s hreaches := h.defaults target args s (.head hinner hreaches)

/-- **What the check makes of a value it makes of itself**, at its place and with as many levels
    left, as far as they go. The induction is on the levels. -/
theorem check_repeats {types : TypeTable} (left : Nat) {ty : Ty} (h : Steady types ty) (v : Json)
    (path : Path) :
    Yields (check types left ty v path) (Repeats (check types left) ty path) := by
  induction left generalizing ty v path with
  | zero => exact .error _
  | succ left ih =>
    have hinner : ∀ inner, Hands types ty inner → ∀ v path,
        Yields (check types left inner v path) (Repeats (check types left) inner path) :=
      fun inner hinner => ih (h.hands hinner)
    have hsame : Yields (check types (left + 1) ty v path) (· = v) →
        Yields (check types (left + 1) ty v path) (Repeats (check types (left + 1)) ty path) :=
      cuts_of_unchanged (f := fun v => check types (left + 1) ty v path)
    have haccept : ∀ ok expected, Yields (accept ok v path expected) (· = v) :=
      fun ok expected => (accept_yields ok v path expected).mono fun _ hout => hout.1
    cases ty with
    | primitive kind => cases kind <;> exact hsame (haccept _ _)
    | any => exact hsame (.ok rfl)
    | generic name => exact hsame (.ok rfl)
    | absent => exact hsame (haccept _ _)
    | optional inner =>
      rw [check_optional]
      split
      · exact .ok (.same _)
      · refine (hinner inner (.optional inner) v path).mono fun out hout => ?_
        rw [Repeats, check_optional]
        split
        · rename_i hnull
          obtain rfl : out = .null := by cases out <;> first | rfl | cases hnull
          exact .same _
        · exact hout
    | literals values => exact hsame (haccept _ _)
    | union members => exact absurd .refl (h.noUnion members)
    | container kind elems variadic =>
      exact checkContainer_repeats
        (fun elem helem => hinner elem (.container kind elems variadic elem helem)) v path
    | named target args =>
      cases hget : types.get target with
      | error fault =>
        rw [check_named_of_error hget]
        exact .error _
      | ok body =>
        have hsteady : ∀ s, body = .struct s → types.get target = .ok (.struct s) := by
          rintro s rfl
          exact hget
        have hrepeats : Repeats (check types (left + 1)) (.named target args) path = fun out =>
            Cuts (checkDefinition (check types left) body args out path) (.ok out) := by
          funext out
          rw [Repeats, check_named hget]
        rw [hrepeats, check_named hget]
        refine checkDefinition_repeats
          (fun s hs => h.fieldsDistinct target args s .refl (hsteady s hs))
          (fun s hs f hf default hdefault => ?_)
          (fun hl ty hty => hinner _ (.named target args body ty hget hl hty)) v
        obtain ⟨level, place, hok⟩ :=
          h.defaults target args s .refl (hsteady s hs) f hf default hdefault
        exact cuts_of_ok hok left _

/-- **Checked values are made nothing else of.** Where no union, no two fields of one name and no
    default that its field's type would change can be come to, the check gives what it has given
    before, from every level and at every place, unless it comes to its last level. -/
theorem checked_values_stand {types : TypeTable} {ty : Ty} (h : Steady types ty) {level : Nat}
    {v out : Json} {path : Path} (hout : checkFrom types level ty v path = .ok out) (level' : Nat)
    (place : Path) :
    checkFrom types level' ty out place = .ok out ∨
      EndsTooDeep (checkFrom types level' ty out place) := by
  have hplace : checkFrom types level ty v place = .ok out := check_ok_anywhere hout place
  have hsame : Cuts (checkFrom types level ty out place) (.ok out) :=
    check_repeats _ h v place out hplace
  refine Cuts.eq_or_endsTooDeep ?_
  rcases Nat.le_total level level' with hle | hle
  · -- with fewer levels left, the second check is cut off from the one with as many
    exact (checkFrom_cuts types hle ty out place).trans hsame
  · -- with more levels left, the value itself is taken with as many
    have hmore : checkFrom types level' ty v place = .ok out := by
      rw [← hplace]
      refine (checkFrom_cuts types hle ty v place).eq_of_not_endsTooDeep ?_
      rintro ⟨_, hdeep⟩
      rw [hplace] at hdeep
      cases hdeep
    exact check_repeats _ h v place out hmore

/-- Nodes of a chain: each has a label, a rank, which is zero if it is not there, and perhaps a link
    to the next one, which is another name for a node. -/
def chain : TypeTable where
  slots := [
    .defined (.struct
      { name := "Node"
        generics := ["T"]
        fields := [
          { name := "label", ty := .generic "T" },
          { name := "rank", ty := .number, default := some (.number (.integer 0)) },
          { name := "next", ty := .union [.absent, .named 1 [.generic "T"]] }] }),
    .defined (.alias { name := "Link", generics := ["T"], ty := .named 0 [.generic "T"] })]

/-- The types that a check of a chain with texts as labels comes to: the union of the field `next`
    has one member besides absence, so that it is none of them. -/
theorem reaches_chain {inner : Ty} (h : Reaches chain (.named 0 [.string]) inner) :
    inner = .named 0 [.string] ∨ inner = .named 1 [.string] ∨ inner = .string ∨
      inner = .number := by
  refine Reaches.closed
    (p := fun ty => ty = .named 0 [.string] ∨ ty = .named 1 [.string] ∨ ty = .string ∨
      ty = .number) (fun ty inner hty hhands => ?_) (.inl rfl) h
  rcases hty with rfl | rfl | rfl | rfl
  · cases hhands with
    | named _ _ body ty hb _ hty =>
      cases hb
      change ty ∈ [.generic "T", .number, .named 1 [.generic "T"]] at hty
      simp only [List.mem_cons, List.not_mem_nil, or_false] at hty
      rcases hty with rfl | rfl | rfl
      · exact .inr (.inr (.inl rfl))
      · exact .inr (.inr (.inr rfl))
      · exact .inr (.inl rfl)
  · cases hhands with
    | named _ _ body ty hb _ hty =>
      cases hb
      obtain rfl : ty = .named 0 [.generic "T"] := List.mem_singleton.mp hty
      exact .inl rfl
  · cases hhands
  · cases hhands

theorem steady_chain : Steady chain (.named 0 [.string]) where
  noUnion members h := by
    rcases reaches_chain h with h | h | h | h <;> cases h
  fieldsDistinct target args s h hs := by
    rcases reaches_chain h with h | h | h | h <;> cases h <;> cases hs
    decide
  defaults target args s h hs f hf default hdefault := by
    rcases reaches_chain h with h | h | h | h <;> cases h <;> cases hs
    simp only [List.mem_cons, List.not_mem_nil, or_false] at hf
    rcases hf with rfl | rfl | rfl <;> cases hdefault
    exact ⟨0, [], rfl⟩

/-- Two nodes without ranks, of which the second has a member that nodes do not declare. -/
def bareChain : Json :=
  .object [("next", .object [("label", .string "b"), ("weight", .null)]), ("label", .string "a")]

/-- The same nodes with ranks, and with nothing else. -/
def checkedChain : Json :=
  .object [("label", .string "a"), ("rank", .number (.integer 0)),
    ("next", .object [("label", .string "b"), ("rank", .number (.integer 0))])]

theorem checked_values_stand_chain :
    Steady chain (.named 0 [.string]) ∧
      checkFrom chain 3 (.named 0 [.string]) bareChain [] = .ok checkedChain ∧
      (checkFrom chain 0 (.named 0 [.string]) checkedChain [.item 1] = .ok checkedChain ∨
        EndsTooDeep (checkFrom chain 0 (.named 0 [.string]) checkedChain [.item 1])) := by
  have hout : checkFrom chain 3 (.named 0 [.string]) bareChain [] = .ok checkedChain := rfl
  exact ⟨steady_chain, hout, checked_values_stand steady_chain hout 0 [.item 1]⟩

end WireContract.Wire
