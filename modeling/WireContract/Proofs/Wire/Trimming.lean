import WireContract.Proofs.Json.DistinctKeys
import WireContract.Proofs.Outcome
import WireContract.Proofs.Wire.Membership
import WireContract.Proofs.Wire.Taking
import WireContract.Wire.Codec

/-!
# The check trims

What the check gives back is its value with undeclared members dropped and defaults filled in, and
nothing else. The members of a table are written one after another, so that this needs names that
are written once: those of the fields of a struct, and the keys of an object that comes in.

* `checkUnion_yields` and its neighbours: every part of the check makes of a value what its type
  makes of it, as far as the comparison that it is given does so for single values;
* `check_yields`: with any number of levels left, so does the check;
* `checkFrom_trims`: the same for every level to start on, and what follows for bodies and results.
-/

namespace WireContract.Wire

/-! ## 1. Outcomes -/

/-- A comparison that settles membership takes inhabitants only. -/
theorem Settles.yields {α : Type} {outcome : Except Fault α} {p : Prop} (h : Settles outcome p) :
    Yields outcome fun _ => p := by
  intro a ha
  rwa [ha] at h

theorem accept_yields (ok : Bool) (v : Json) (path : Path) (expected : Expected) :
    Yields (accept ok v path expected) fun out => out = v ∧ ok = true := by
  unfold accept
  split
  · rename_i hok
    exact .ok ⟨rfl, hok⟩
  · exact .error _

/-! ## 2. The parts of the check -/

theorem not_mem_of_nodup_append {α : Type} {a : α} {xs ys : List α}
    (h : (xs ++ a :: ys).Nodup) : a ∉ xs :=
  fun ha => (List.nodup_append.mp h).2.2 a ha a List.mem_cons_self rfl

section Parts

variable {types : TypeTable} {checker : Checker} {takes : Ty → Json → Json → Prop}
  (hs : ∀ ty v path, Settles (checker ty v path) (Inhabits types ty v))
  (hc : ∀ ty v path, v.KeysDistinct → Yields (checker ty v path) (takes ty v))

include hs hc in
/-- The member that takes the value is the first one that has it. -/
theorem checkUnion_yields (members : List Ty) {v : Json} (hv : v.KeysDistinct) (path : Path) :
    Yields (checkUnion checker members v path) fun out =>
      ∃ before member after, members = before ++ member :: after ∧
        (∀ other ∈ before, ¬ Inhabits types other v) ∧ takes member v out := by
  induction members with
  | nil => exact .error _
  | cons ty rest ih =>
    unfold checkUnion
    split
    · rename_i out hout
      exact .ok ⟨[], ty, rest, rfl, by simp, hc ty v path hv out hout⟩
    · rename_i fault hfault
      split
      · rename_i hm
        -- The member is passed over for a mismatch, so that the value is not its inhabitant.
        have hty := hs ty v path
        rw [hfault] at hty
        refine ih.mono fun out hout => ?_
        obtain ⟨before, member, after, rfl, hbefore, htaken⟩ := hout
        refine ⟨ty :: before, member, after, rfl, ?_, htaken⟩
        exact List.forall_mem_cons.mpr ⟨hty.not_of_mismatch hm, hbefore⟩
      · exact .error fault

include hc

theorem checkItems_yields (elem : Ty) (path : Path) (index : Nat) {items : List Json}
    (hv : ∀ v ∈ items, v.KeysDistinct) :
    Yields (checkItems checker elem path index items) fun outs =>
      outs.length = items.length ∧ ∀ p ∈ items.zip outs, takes elem p.1 p.2 := by
  induction items generalizing index with
  | nil => exact .ok ⟨rfl, by simp⟩
  | cons v rest ih =>
    rw [List.forall_mem_cons] at hv
    unfold checkItems
    refine (hc elem v _ hv.1).bind fun out hout => (ih (index + 1) hv.2).map fun outs houts => ?_
    exact ⟨congrArg Nat.succ houts.1, List.forall_mem_cons.mpr ⟨hout, houts.2⟩⟩

theorem checkPlaces_yields (path : Path) (index : Nat) {elems : List Ty} {items : List Json}
    (hl : items.length = elems.length) (hv : ∀ v ∈ items, v.KeysDistinct) :
    Yields (checkPlaces checker path index elems items) fun outs =>
      outs.length = items.length ∧ ∀ p ∈ elems.zip (items.zip outs), takes p.1 p.2.1 p.2.2 := by
  induction elems generalizing index items with
  | nil =>
    obtain rfl := List.length_eq_zero_iff.mp hl
    exact .ok ⟨rfl, by simp⟩
  | cons ty tys ih =>
    cases items with
    | nil => cases hl
    | cons v rest =>
      rw [List.forall_mem_cons] at hv
      unfold checkPlaces
      refine (hc ty v _ hv.1).bind fun out hout =>
        (ih (index + 1) (Nat.succ.inj hl) hv.2).map fun outs houts => ?_
      exact ⟨congrArg Nat.succ houts.1, List.forall_mem_cons.mpr ⟨hout, houts.2⟩⟩

include hs in
/-- No key is there twice, so that every entry goes to the end of what is put together. -/
theorem checkEntries_yields (hn : ∀ n, Inhabits types .number (.number n)) (keyTy valueTy : Ty)
    (path : Path) {members done : Entries Json} (hkeys : (done.keys ++ members.keys).Nodup)
    (hv : ∀ e ∈ members, e.2.KeysDistinct) :
    Yields (checkEntries checker keyTy valueTy path members done) fun out =>
      ∃ outs : Entries Json, out = done ++ outs ∧ outs.keys = members.keys ∧
        (∀ e ∈ members, KeyFits (Inhabits types) keyTy e.1) ∧
        ∀ p ∈ members.zip outs, takes valueTy p.1.2 p.2.2 := by
  induction members generalizing done with
  | nil => exact .ok ⟨[], by simp, rfl, by simp, by simp⟩
  | cons e rest ih =>
    obtain ⟨key, v⟩ := e
    rw [List.forall_mem_cons] at hv
    rw [Entries.keys_cons] at hkeys
    unfold checkEntries
    refine (checkKey_settles hs hn keyTy key _).yields.bind fun _ hkey => ?_
    refine (hc valueTy v _ hv.1).bind fun out hout => ?_
    rw [Entries.put_of_not_mem _ _ _ (not_mem_of_nodup_append hkeys)]
    have hnext : ((done ++ [(key, out)]).keys ++ Entries.keys rest).Nodup := by simpa using hkeys
    refine (ih hnext hv.2).mono fun all hall => ?_
    obtain ⟨outs, rfl, houts, hkeys, hvalues⟩ := hall
    refine ⟨(key, out) :: outs, by simp, by simp [houts], ?_, ?_⟩
    · exact List.forall_mem_cons.mpr ⟨hkey, hkeys⟩
    · exact List.forall_mem_cons.mpr ⟨hout, hvalues⟩

/-- No two fields have one name, so that every field goes to the end of what is put together. -/
theorem checkMembers_yields (bindings : Ty.Bindings) (path : Path) {object done : Entries Json}
    {fields : List Field} (hkeys : (done.keys ++ fields.map (·.name)).Nodup)
    (hv : ∀ name v, object.get? name = some v → v.KeysDistinct) :
    Yields (checkMembers checker bindings object path fields done) fun out =>
      ∃ outs : Entries Json, out = done ++ outs ∧
        MembersTaken takes bindings fields object outs := by
  induction fields generalizing done with
  | nil => exact .ok ⟨[], by simp, .nil⟩
  | cons f rest ih =>
    rw [List.map_cons] at hkeys
    have hnew : f.name ∉ done.keys := not_mem_of_nodup_append hkeys
    have hrest : f.name ∉ rest.map (·.name) :=
      (List.nodup_cons.mp (List.nodup_append.mp hkeys).2.1).1
    have hnext : ∀ out, ((done ++ [(f.name, out)]).keys ++ rest.map (·.name)).Nodup :=
      fun out => by simpa using hkeys
    unfold checkMembers
    -- The field is there, or it is filled in, or it is left out; else there is no value.
    split
    · rename_i v hget
      refine (hc _ v _ (hv f.name v hget)).bind fun out hout => ?_
      rw [Entries.put_of_not_mem _ _ _ hnew]
      refine (ih (hnext out)).mono fun all hall => ?_
      obtain ⟨outs, rfl, houts⟩ := hall
      refine ⟨(f.name, out) :: outs, by simp, houts.written hrest ?_ ?_⟩
      · intro v' hget'
        obtain rfl : v = v' := Option.some.inj (hget.symm.trans hget')
        exact hout
      · exact fun hnone => absurd (hget.symm.trans hnone) (by simp)
    · rename_i hget
      split
      · rename_i default hdefault
        rw [Entries.put_of_not_mem _ _ _ hnew]
        refine (ih (hnext default)).mono fun all hall => ?_
        obtain ⟨outs, rfl, houts⟩ := hall
        refine ⟨(f.name, default) :: outs, by simp, houts.written hrest ?_ fun _ => hdefault⟩
        exact fun v hget' => absurd (hget.symm.trans hget') (by simp)
      · rename_i hdefault
        split
        · exact .error _
        · rename_i hrequired
          refine (ih ?_).mono fun all hall => ?_
          · exact hkeys.sublist ((List.sublist_cons_self _ _).append_left _)
          · obtain ⟨outs, rfl, houts⟩ := hall
            exact ⟨outs, rfl, houts.left hrest hget hdefault (by simpa using hrequired)⟩

theorem checkFields_yields {s : StructDef} (hfields : s.FieldsDistinct) (args : List Ty) {v : Json}
    (hv : v.KeysDistinct) (path : Path) :
    Yields (checkFields checker s args v path) fun out =>
      ∃ object : Entries Json, v = .object object ∧
        MembersTaken takes (Ty.bind s.generics args) s.fields object out := by
  unfold checkFields
  refine (checkArity_settles s.name s.generics args).yields.bind fun _ _ => ?_
  cases hv with
  | object members _ hvalues =>
    have hmembers : ∀ name v, Entries.get? members name = some v → v.KeysDistinct :=
      fun name v hget => hvalues _ (Entries.mem_of_get? hget)
    have hkeys : (Entries.keys ([] : Entries Json) ++ s.fields.map (·.name)).Nodup := hfields
    refine (checkMembers_yields hc _ path hkeys hmembers).mono fun all hall => ?_
    obtain ⟨outs, rfl, houts⟩ := hall
    exact ⟨members, rfl, houts⟩
  | _ => exact .error _

theorem checkContainer_items_yields (elem : Ty) {v : Json} (hv : v.KeysDistinct) (path : Path) :
    Yields (checkContainer.items checker v path elem) fun out =>
      ∃ items outs, v = .array items ∧ out = .array outs ∧ outs.length = items.length ∧
        ∀ p ∈ items.zip outs, takes elem p.1 p.2 := by
  unfold checkContainer.items
  cases hv with
  | array items hitems =>
    refine (checkItems_yields hc elem path 0 hitems).map fun outs houts => ?_
    exact ⟨items, outs, rfl, rfl, houts⟩
  | _ => exact .error _

end Parts

/-! ## 3. The check -/

section Whole

variable {types : TypeTable} {checker : Checker}
  (hs : ∀ ty v path, Settles (checker ty v path) (Inhabits types ty v))
  (hc : ∀ ty v path, v.KeysDistinct → Yields (checker ty v path) (TakenAs types ty v))

include hc

include hs in
theorem checkContainer_yields (kind : ContainerKind) (elems : List Ty) (variadic : Bool) {v : Json}
    (hv : v.KeysDistinct) (path : Path) :
    Yields (checkContainer checker kind elems variadic v path)
      (TakenAs types (.container kind elems variadic) v) := by
  unfold checkContainer
  split
  · rename_i elem
    refine (checkContainer_items_yields hc elem hv path).mono fun out hout => ?_
    obtain ⟨items, outs, rfl, rfl, hl, h⟩ := hout
    exact .array elem variadic items outs hl h
  · rename_i elem
    refine (checkContainer_items_yields hc elem hv path).mono fun out hout => ?_
    obtain ⟨items, outs, rfl, rfl, hl, h⟩ := hout
    exact .variadic elem items outs hl h
  · cases hv with
    | array items hitems =>
      dsimp only [Json.items?]
      split
      · exact .error _
      · rename_i hl
        have hi : items.length = elems.length := Classical.not_not.mp hl
        refine (checkPlaces_yields hc path 0 hi hitems).map fun outs houts => ?_
        exact .tuple elems items outs hi houts.1 houts.2
    | _ => exact .error _
  · rename_i keyTy valueTy
    cases hv with
    | object members hkeys hvalues =>
      have hnodup : (Entries.keys ([] : Entries Json) ++ Entries.keys members).Nodup := hkeys
      refine (checkEntries_yields hs hc .number keyTy valueTy path hnodup hvalues).map ?_
      rintro outs ⟨_, rfl, houts, hkeysFit, h⟩
      exact .record keyTy valueTy members outs houts hkeysFit h
    | _ => exact .error _
  · exact .error _

theorem checkDefinition_yields (hf : types.FieldsDistinct) {target : DefId} {body : Definition}
    (hb : types.get target = .ok body) (args : List Ty) {v : Json} (hv : v.KeysDistinct)
    (path : Path) :
    Yields (checkDefinition checker body args v path) (TakenAs types (.named target args) v) := by
  cases body with
  | struct s =>
    refine (checkFields_yields hc (hf target s hb) args hv path).map fun out hout => ?_
    obtain ⟨object, rfl, hout⟩ := hout
    exact .struct target args s object out hb hout.keys hout.present hout.missing
  | enumeration e =>
    refine (accept_yields _ v path _).mono fun out hout => ?_
    obtain ⟨rfl, hmember⟩ := hout
    exact .enumeration target args e out hb (List.any_eq_true.mp hmember)
  | «alias» a =>
    refine (checkArity_settles a.name a.generics args).yields.bind fun _ _ => ?_
    exact (hc _ v path hv).mono fun out hout => .alias target args a v out hb hout

end Whole

/-- **With any number of levels left, the check makes of a value what its type makes of it.** The
    induction is on the levels, as for membership, which says why a member of a union was passed
    over. -/
theorem check_yields {types : TypeTable} (hf : types.FieldsDistinct) (left : Nat) (ty : Ty)
    (v : Json) (path : Path) (hv : v.KeysDistinct) :
    Yields (check types left ty v path) (TakenAs types ty v) := by
  induction left generalizing ty v path with
  | zero => exact .error _
  | succ left ih =>
    cases ty with
    | primitive kind =>
      have h : Yields (check types (left + 1) (.primitive kind) v path) fun out =>
          out = v ∧ isOfKind v kind = true := by
        cases kind <;> exact accept_yields _ v path _
      refine h.mono fun out hout => ?_
      obtain ⟨rfl, hkind⟩ := hout
      exact .primitive kind out hkind
    | any => exact .ok (.any v)
    | generic name => exact .ok (.generic name v)
    | absent =>
      refine (accept_yields _ v path _).mono fun out hout => ?_
      obtain ⟨rfl, hnull⟩ := hout
      cases out <;> first | exact .absent | cases hnull
    | optional inner =>
      rw [check_optional]
      split
      · rename_i hn
        refine .ok ?_
        cases v <;> first | exact .optionalNull inner | cases hn
      · rename_i hn
        refine (ih inner v path hv).mono fun out hout => ?_
        exact .optional inner v out (by simpa using hn) hout
    | literals values =>
      refine (accept_yields _ v path _).mono fun out hout => ?_
      obtain ⟨rfl, hvalue⟩ := hout
      exact .literals values out (List.any_eq_true.mp hvalue)
    | union members =>
      refine (checkUnion_yields (check_settles types left) ih members hv path).mono ?_
      rintro out ⟨before, member, after, rfl, hbefore, hout⟩
      exact .union before member after v out hbefore hout
    | container kind elems variadic =>
      exact checkContainer_yields (check_settles types left) ih kind elems variadic hv path
    | named target args =>
      cases hb : types.get target with
      | error fault =>
        rw [check_named_of_error hb]
        exact .error _
      | ok body =>
        rw [check_named hb]
        exact checkDefinition_yields ih hf hb args hv path

/-- What is written of a result is what its type makes of it. -/
theorem encode_yields {types : TypeTable} (hf : types.FieldsDistinct) (codec : Codec)
    {result : Json} (hv : result.KeysDistinct) :
    Yields (codec.encode types result) fun text =>
      ∃ out, text = out.render ∧ TakenAs types codec.returns result out ∧
        Declares types codec.returns out :=
  (check_yields hf _ codec.returns result [] hv).map fun out h => ⟨out, rfl, h, h.declares⟩

/-- What is read of a body is what the parameters make of it. -/
theorem decode_yields {types : TypeTable} (hf : types.FieldsDistinct) (codec : Codec)
    (body : List UInt8) :
    Yields (codec.decode types body) fun args =>
      ∃ s object, types.get codec.params = .ok (.struct s) ∧ Json.read body = .ok (.object object) ∧
        MembersTaken (TakenAs types) (Ty.bind s.generics []) s.fields object args := by
  unfold Codec.decode
  split
  · exact .error _
  · rename_i v hread
    have hv : v.KeysDistinct := Json.read_keysDistinct hread
    unfold Codec.arguments
    split
    · exact .error _
    · rename_i s hs
      refine (checkFields_yields (check_yields hf _) (hf _ s hs) [] hv []).mono fun args hargs => ?_
      obtain ⟨object, rfl, htaken⟩ := hargs
      exact ⟨s, object, hs, hread, htaken⟩
    · exact .error _

/-- **The check trims**: what it gives back is what the type makes of the value -- undeclared
    members of structs are dropped, defaults are filled in, and nothing else happens. So a result is
    sent with declared members only, and the arguments that a body holds are the fields of the
    parameters, with one for every field that must be there or has a default. -/
theorem checkFrom_trims {types : TypeTable} (hf : types.FieldsDistinct) :
    (∀ level ty v path out, v.KeysDistinct → checkFrom types level ty v path = .ok out →
      TakenAs types ty v out) ∧
    (∀ (codec : Codec) result text, result.KeysDistinct → codec.encode types result = .ok text →
      ∃ out, text = out.render ∧ TakenAs types codec.returns result out ∧
        Declares types codec.returns out) ∧
    ∀ (codec : Codec) body args, codec.decode types body = .ok args →
      ∃ s object, types.get codec.params = .ok (.struct s) ∧ Json.read body = .ok (.object object) ∧
        MembersTaken (TakenAs types) (Ty.bind s.generics []) s.fields object args ∧
        ∀ f ∈ s.fields, f.isRequired = true ∨ f.default.isSome = true →
          ∃ v, args.get? f.name = some v := by
  refine ⟨fun level ty v path out hv h => check_yields hf _ ty v path hv out h,
    fun codec result text hv h => encode_yields hf codec hv text h, fun codec body args h => ?_⟩
  obtain ⟨s, object, hs, hread, htaken⟩ := decode_yields hf codec body args h
  exact ⟨s, object, hs, hread, htaken, fun f hmem => htaken.exists_of_isRequired hmem⟩

/-- Books with a tag of any type, and the parameters of a method that lists the books of a shelf. -/
def library : TypeTable where
  slots := [
    .defined (.struct
      { name := "Book"
        generics := ["T"]
        fields := [
          { name := "title", ty := .string },
          { name := "shelf", ty := .string, default := some (.string "A") },
          { name := "note", ty := .optional .string },
          { name := "tag", ty := .generic "T" }] }),
    .defined (.struct
      { name := "ListParameters"
        fields := [{ name := "shelf", ty := .string, default := some (.string "A") }] })]

/-- A book with a price, which books do not declare, and without a shelf. -/
def pricedBook : Json :=
  .object [("tag", .bool true), ("price", .null), ("title", .string "Emma")]

theorem checkFrom_trims_library :
    TakenAs library (.named 0 [.bool]) pricedBook
      (.object [("title", .string "Emma"), ("shelf", .string "A"), ("tag", .bool true)]) ∧
    (∃ out, (Codec.mk 1 (.named 0 [.bool])).encode library pricedBook = .ok out.render ∧
      Declares library (.named 0 [.bool]) out) ∧
    ∃ s object, library.get 1 = .ok (.struct s) ∧
      MembersTaken (TakenAs library) (Ty.bind s.generics []) s.fields object
        [("shelf", .string "A")] := by
  have hdistinct : library.FieldsDistinct := by
    intro id s hs
    match id with
    | 0 =>
      cases hs
      decide
    | 1 =>
      cases hs
      decide
    | _ + 2 => cases hs
  have hbook : pricedBook.KeysDistinct := by
    refine .object _ (by decide) fun e he => ?_
    simp only [List.mem_cons, List.not_mem_nil, or_false] at he
    rcases he with rfl | rfl | rfl <;> constructor
  obtain ⟨htrims, hencode, hdecode⟩ := checkFrom_trims hdistinct
  refine ⟨htrims 0 _ _ [] _ hbook rfl, ?_, ?_⟩
  · obtain ⟨out, htext, -, hdeclares⟩ := hencode ⟨1, .named 0 [.bool]⟩ pricedBook _ hbook rfl
    exact ⟨out, congrArg Except.ok htext, hdeclares⟩
  · obtain ⟨s, object, hs, -, htaken, -⟩ := hdecode ⟨1, .any⟩ [0x7b, 0x7d] _ rfl
    exact ⟨s, object, hs, htaken⟩

end WireContract.Wire
