import WireContract.Proofs.Json.Equality
import WireContract.Proofs.Wire.Levels
import WireContract.Proofs.Wire.Trimming

/-!
# The order of keys does not matter

Two values that are equal as values, with the keys of their objects in any order, are both taken or
both refused, and what is made of them is equal again. This is so as far as the check says something
of either: which of two faults it comes to first does depend on the order of keys, and one of them
may be that a type is at fault or that there are no more levels. So what is compared are values
that both checks give; that a union takes both with the same member follows from the inhabitants of
a type, which do not depend on the order of keys either.

The members of a struct come in the order of its fields, whatever the order in the value. Other
types hand their values on as they are, and a record keeps its keys in order of arrival.

* `inhabits_congr`: the inhabitants of a type;
* `Agree`: two outcomes that are related if both are values;
* `Matches`: values that are equal, and show one order of keys if this is asked for;
* `checkUnion_agree` and its neighbours: the parts of the check;
* `KeepsOrder`: the types that hand on the order of keys;
* `key_order_never_matters`: the check.
-/

namespace WireContract

/-- Every default is a value that has each key of an object once. -/
def TypeTable.DefaultsDistinct (types : TypeTable) : Prop :=
  ∀ id s, types.get id = .ok (.struct s) → ∀ f ∈ s.fields, ∀ default, f.default = some default →
    default.KeysDistinct

namespace Wire

/-! ## 1. Inhabitants -/

/-- **A type has a value with its keys in any order or in none.** -/
theorem inhabits_congr {types : TypeTable} {ty : Ty} {v w : Json} (h : Inhabits types ty v)
    (hvw : v.Alike w) : Inhabits types ty w := by
  induction h generalizing w with
  | null | bool | number | string | absent | optionalNull =>
    cases Json.beq_iff_equalParts.mp hvw.equal
    constructor
  | any v => exact .any w
  | generic name v => exact .generic name w
  | optional inner v h ih => exact .optional inner w (ih hvw)
  | literals values v h =>
    obtain ⟨u, hu, huv⟩ := h
    exact .literals values w ⟨u, hu, hvw.beq_of_beq huv⟩
  | union members member v hm h ih => exact .union members member w hm (ih hvw)
  | array elem variadic items h ih =>
    obtain ⟨others, rfl, heach⟩ := hvw.exists_array
    refine .array elem variadic others fun w hw => ?_
    obtain ⟨v, hv, halike⟩ := Json.exists_mem_of_forall₂ heach hw
    exact ih v hv halike
  | variadic elem items h ih =>
    obtain ⟨others, rfl, heach⟩ := hvw.exists_array
    refine .variadic elem others fun w hw => ?_
    obtain ⟨v, hv, halike⟩ := Json.exists_mem_of_forall₂ heach hw
    exact ih v hv halike
  | tuple elems items hl h ih =>
    obtain ⟨others, rfl, heach⟩ := hvw.exists_array
    have hplaces : List.Forall₂ (fun ty v => ∀ w, v.Alike w → Inhabits types ty w) elems items :=
      List.forall₂_iff_zip.mpr ⟨hl.symm, fun {ty v} hmem w => ih (ty, v) hmem⟩
    have hothers : List.Forall₂ (Inhabits types) elems others :=
      Json.forall₂_trans hplaces heach fun _ _ w _ hv => hv w
    exact .tuple elems others hothers.length_eq.symm fun p hp => List.forall₂_zip hothers hp
  | record keyTy valueTy members hn hk hv _ ih =>
    obtain ⟨others, rfl, -, hkeys, hrelated⟩ := hvw.exists_object
    have hfind : ∀ e ∈ others, ∃ v, (e.1, v) ∈ members ∧ v.Alike e.2 :=
      fun e he => hrelated.exists_mem hkeys he
    refine .record keyTy valueTy others (fun hty e he => ?_) (fun hty e he => ?_) fun e he => ?_
    · obtain ⟨v, hv, -⟩ := hfind e he
      exact hn hty (e.1, v) hv
    · obtain ⟨v, hv, -⟩ := hfind e he
      exact hk hty (e.1, v) hv
    · obtain ⟨v, hv, halike⟩ := hfind e he
      exact ih (e.1, v) hv halike
  | struct target args s object hs hp hm ih =>
    obtain ⟨others, rfl, -, -, hrelated⟩ := hvw.exists_object
    refine .struct target args s others hs (fun f hf w hw => ?_) fun f hf hnone => ?_
    · obtain ⟨v, hv, halike⟩ := hrelated.flip.found f.name w hw
      exact ih f hf v hv halike
    · exact hm f hf (hrelated.flip.missing f.name hnone)
  | enumeration target args e v he h =>
    obtain ⟨m, hm, hmv⟩ := h
    exact .enumeration target args e w he ⟨m, hm, hvw.beq_of_beq hmv⟩
  | «alias» target args a v ha h ih => exact .alias target args a w ha (ih hvw)

/-! ## 2. Outcomes -/

/-- The outcomes are related if both are values. -/
def Agree {α β : Type} (rel : α → β → Prop) (x : Except Fault α) (y : Except Fault β) : Prop :=
  ∀ a b, x = .ok a → y = .ok b → rel a b

namespace Agree

variable {α β γ δ : Type} {rel : α → β → Prop} {rel' : γ → δ → Prop} {x : Except Fault α}
  {y : Except Fault β}

theorem ok {a : α} {b : β} (h : rel a b) : Agree rel (.ok a) (.ok b) := by
  intro a' b' ha hb
  cases ha
  cases hb
  exact h

theorem errorLeft (fault : Fault) : Agree rel (.error fault) y :=
  fun _ _ h _ => nomatch h

theorem errorRight (fault : Fault) : Agree rel x (.error fault) :=
  fun _ _ _ h => nomatch h

theorem bind {f : α → Except Fault γ} {g : β → Except Fault δ} (h : Agree rel x y)
    (hf : ∀ a b, rel a b → Agree rel' (f a) (g b)) : Agree rel' (x >>= f) (y >>= g) := by
  cases x with
  | error fault => exact .errorLeft fault
  | ok a =>
    cases y with
    | error fault => exact .errorRight fault
    | ok b => exact hf a b (h a b rfl rfl)

theorem map {f : α → γ} {g : β → δ} (h : Agree rel x y) (hf : ∀ a b, rel a b → rel' (f a) (g b)) :
    Agree rel' (x.map f) (y.map g) := by
  cases x with
  | error fault => exact .errorLeft fault
  | ok a =>
    cases y with
    | error fault => exact .errorRight fault
    | ok b => exact .ok (hf a b (h a b rfl rfl))

end Agree

/-- Values that are taken as they are agree if they are related. -/
theorem accept_agree {rel : Json → Json → Prop} {v w : Json} (ok ok' : Bool) (path place : Path)
    (expected expected' : Expected) (h : ok = true → ok' = true → rel v w) :
    Agree rel (accept ok v path expected) (accept ok' w place expected') := by
  intro out other hout hother
  obtain ⟨rfl, hok⟩ := accept_yields ok v path expected out hout
  obtain ⟨rfl, hok'⟩ := accept_yields ok' w place expected' other hother
  exact h hok hok'

/-! ## 3. Values -/

/-- The values are equal, and if this is asked for, the keys of their objects are in one order. -/
structure Matches (ordered : Prop) (v w : Json) : Prop where
  equal : (v == w) = true
  inOrder : ordered → v.outline = w.outline

/-- Members under the same keys in one order, each key once, with values that match. -/
structure MembersMatch (ordered : Prop) (members others : Entries Json) : Prop where
  keys : members.keys.Nodup
  each : List.Forall₂ (fun e e' => e.1 = e'.1 ∧ Matches ordered e.2 e'.2) members others

section Values

variable {ordered : Prop}

theorem Matches.refl {v : Json} (h : v.KeysDistinct) : Matches ordered v v :=
  ⟨h.beq_refl, fun _ => rfl⟩

/-- Values without parts show no order. -/
theorem Matches.of_isOfKind {kind : Primitive} {v w : Json} (h : (v == w) = true)
    (hv : isOfKind v kind = true) (hw : isOfKind w kind = true) : Matches ordered v w := by
  have houtline : ∀ u : Json, isOfKind u kind = true → u.outline = .null := by
    intro u hu
    cases kind <;> cases u <;> first | rfl | cases hu
  exact ⟨h, fun _ => (houtline v hv).trans (houtline w hw).symm⟩

theorem Matches.array {items others : List Json}
    (h : List.Forall₂ (Matches ordered) items others) :
    Matches ordered (.array items) (.array others) where
  equal := Json.beq_array_iff.mpr (h.imp fun _ _ hvw => hvw.equal)
  inOrder hordered := by
    rw [Json.outline_array, Json.outline_array]
    refine congrArg Json.array ?_
    rw [← List.forall₂_eq_eq_eq, List.forall₂_map_left_iff, List.forall₂_map_right_iff]
    exact h.imp fun _ _ hvw => hvw.inOrder hordered

namespace MembersMatch

variable {members others : Entries Json}

theorem keys_eq (h : MembersMatch ordered members others) : members.keys = others.keys := by
  rw [Entries.keys, Entries.keys, ← List.forall₂_eq_eq_eq, List.forall₂_map_left_iff,
    List.forall₂_map_right_iff]
  exact h.each.imp fun _ _ he => he.1

theorem nil : MembersMatch ordered [] [] := ⟨List.nodup_nil, .nil⟩

theorem put (h : MembersMatch ordered members others) (key : String) {v w : Json}
    (hvw : Matches ordered v w) : MembersMatch ordered (members.put key v) (others.put key w) := by
  obtain ⟨hkeys, heach⟩ := h
  refine ⟨Entries.nodup_keys_put hkeys key v, ?_⟩
  clear hkeys
  induction heach with
  | nil => exact .cons ⟨rfl, hvw⟩ .nil
  | @cons e e' _ _ he hrest ih =>
    obtain ⟨k, v⟩ := e
    obtain ⟨k', w⟩ := e'
    obtain ⟨rfl, hvw'⟩ := he
    unfold Entries.put
    split
    · exact .cons ⟨rfl, hvw⟩ hrest
    · exact .cons ⟨rfl, hvw'⟩ ih

theorem object (h : MembersMatch ordered members others) :
    Matches ordered (.object members) (.object others) where
  equal := by
    rw [Json.beq_object_iff_related h.keys (h.keys_eq ▸ h.keys)]
    refine Entries.related_of_zip h.keys_eq.symm fun p hp => ?_
    exact (List.forall₂_zip h.each hp).2.equal
  inOrder hordered := by
    rw [Json.outline_object, Json.outline_object]
    refine congrArg Json.object ?_
    rw [← List.forall₂_eq_eq_eq, List.forall₂_map_left_iff, List.forall₂_map_right_iff]
    exact h.each.imp fun _ _ he => Prod.ext he.1 (he.2.inOrder hordered)

end MembersMatch

end Values

/-! ## 4. The parts of the check -/

/-- At every two places a comparison makes matching values of values that are alike. -/
def CarriesOver (ordered : Prop) (checker : Checker) (ty : Ty) : Prop :=
  ∀ v w path place, v.Alike w → Agree (Matches ordered) (checker ty v path) (checker ty w place)

section Parts

variable {types : TypeTable} {ordered : Prop} {checker : Checker}

/-- A member that takes one of the values does not refuse the other, so that both are taken by the
    same one, as far as a fault of another kind does not end the search. -/
theorem checkUnion_agree
    (hs : ∀ ty v path, Settles (checker ty v path) (Inhabits types ty v)) {members : List Ty}
    (hc : ∀ member ∈ members, CarriesOver ordered checker member) {v w : Json} (path place : Path)
    (hvw : v.Alike w) :
    Agree (Matches ordered) (checkUnion checker members v path)
      (checkUnion checker members w place) := by
  -- a mismatch would say that the other value is no inhabitant, and then this one is none
  have hkeeps : ∀ {ty v w path place out fault}, v.Alike w → checker ty v path = .ok out →
      checker ty w place = .error fault → ¬ fault.isMismatch = true := by
    intro ty v w path place out fault hvw hout hfault hm
    have htaken : Inhabits types ty v := (hs ty v path).yields out hout
    have hrefused := hs ty w place
    rw [hfault] at hrefused
    exact hrefused.not_of_mismatch hm (inhabits_congr htaken hvw)
  induction members with
  | nil => exact .errorLeft _
  | cons ty rest ih =>
    rw [List.forall_mem_cons] at hc
    rw [checkUnion_cons, checkUnion_cons]
    cases hv : checker ty v path with
    | ok out =>
      cases hw : checker ty w place with
      | ok other => exact .ok (hc.1 v w path place hvw out other hv hw)
      | error fault =>
        rw [orNext_of_not_isMismatch (hkeeps hvw hv hw)]
        exact .errorRight fault
    | error fault =>
      by_cases hm : fault.isMismatch = true
      · rw [orNext_of_isMismatch hm]
        cases hw : checker ty w place with
        | ok other => exact absurd hm (hkeeps hvw.symm hw hv)
        | error fault' =>
          by_cases hm' : fault'.isMismatch = true
          · rw [orNext_of_isMismatch hm']
            exact ih hc.2
          · rw [orNext_of_not_isMismatch hm']
            exact .errorRight fault'
      · rw [orNext_of_not_isMismatch hm]
        exact .errorLeft fault

theorem checkItems_agree {elem : Ty} (hc : CarriesOver ordered checker elem) (path place : Path)
    (index : Nat) {items others : List Json} (h : List.Forall₂ Json.Alike items others) :
    Agree (List.Forall₂ (Matches ordered)) (checkItems checker elem path index items)
      (checkItems checker elem place index others) := by
  induction h generalizing index with
  | nil => exact .ok .nil
  | cons hfirst _ ih =>
    unfold checkItems
    refine (hc _ _ _ _ hfirst).bind fun out other hout => ?_
    exact (ih (index + 1)).bind fun outs others houts => .ok (.cons hout houts)

theorem checkPlaces_agree {elems : List Ty} (hc : ∀ ty ∈ elems, CarriesOver ordered checker ty)
    (path place : Path) (index : Nat) {items others : List Json}
    (h : List.Forall₂ Json.Alike items others) :
    Agree (List.Forall₂ (Matches ordered)) (checkPlaces checker path index elems items)
      (checkPlaces checker place index elems others) := by
  induction elems generalizing index items others with
  | nil => exact .ok .nil
  | cons ty tys ih =>
    rw [List.forall_mem_cons] at hc
    cases h with
    | nil => exact .ok .nil
    | cons hfirst hrest =>
      unfold checkPlaces
      refine (hc.1 _ _ _ _ hfirst).bind fun out other hout => ?_
      exact (ih hc.2 (index + 1) hrest).bind fun outs others houts => .ok (.cons hout houts)

/-- A comparison makes one value of the other, at some place. -/
def Makes (checker : Checker) (ty : Ty) (v out : Json) : Prop := ∃ path, checker ty v path = .ok out

/-- Under each key of a record there is what is made of the value under it. -/
theorem checkEntries_makes
    (hs : ∀ ty v path, Settles (checker ty v path) (Inhabits types ty v)) (keyTy valueTy : Ty)
    (path : Path) {members : Entries Json} (hkeys : members.keys.Nodup)
    (hv : ∀ e ∈ members, e.2.KeysDistinct) :
    Yields (checkEntries checker keyTy valueTy path members []) fun outs =>
      outs.keys = members.keys ∧ members.Related (Makes checker valueTy) outs := by
  have hmakes : ∀ ty v path, v.KeysDistinct → Yields (checker ty v path) (Makes checker ty v) :=
    fun ty v path _ out hout => ⟨path, hout⟩
  have hnodup : (Entries.keys ([] : Entries Json) ++ members.keys).Nodup := hkeys
  refine (checkEntries_yields hs hmakes .number keyTy valueTy path hnodup hv).mono ?_
  rintro _ ⟨outs, rfl, hsame, -, hmade⟩
  exact ⟨hsame, Entries.related_of_zip hsame hmade⟩

/-- The members of a record are taken in their order, which may be two orders: what is made of them
    is equal key by key. -/
theorem checkEntries_agree
    (hs : ∀ ty v path, Settles (checker ty v path) (Inhabits types ty v)) {keyTy valueTy : Ty}
    (hc : CarriesOver ordered checker valueTy) (path place : Path) {members others : Entries Json}
    (hkeys : members.keys.Nodup) (hkeys' : others.keys.Nodup)
    (h : members.Related Json.Alike others) (hfree : ¬ ordered) :
    Agree (fun outs outs' => Matches ordered (.object outs) (.object outs'))
      (checkEntries checker keyTy valueTy path members [])
      (checkEntries checker keyTy valueTy place others []) := by
  intro outs outs' houts houts'
  have hleft : ∀ e ∈ members, e.2.KeysDistinct := fun e he => by
    obtain ⟨w, -, hvw⟩ := h.found e.1 e.2 (Entries.get?_of_mem hkeys he)
    exact hvw.left
  have hright : ∀ e ∈ others, e.2.KeysDistinct := fun e he => by
    obtain ⟨v, -, hvw⟩ := h.exists_mem hkeys' he
    exact hvw.right
  obtain ⟨hsame, hmade⟩ := checkEntries_makes hs keyTy valueTy path hkeys hleft outs houts
  obtain ⟨hsame', hmade'⟩ := checkEntries_makes hs keyTy valueTy place hkeys' hright outs' houts'
  -- from what is made of a member back to it, over to the other object, and on to what is made
  -- there
  have hrelated := (hmade.flip.comp h).comp hmade'
  refine ⟨?_, fun hordered => absurd hordered hfree⟩
  rw [Json.beq_object_iff_related (hsame ▸ hkeys) (hsame' ▸ hkeys')]
  refine hrelated.mono fun key out other _ _ hpair => ?_
  obtain ⟨w, ⟨v, ⟨path, hout⟩, hvw⟩, place, hother⟩ := hpair
  exact (hc v w path place hvw out other hout hother).equal

/-- The fields are taken in declared order. -/
theorem checkMembers_agree {bindings : Ty.Bindings} {fields : List Field}
    (hc : ∀ f ∈ fields, CarriesOver ordered checker (f.shape.1.substitute bindings))
    (hdefaults : ∀ f ∈ fields, ∀ default, f.default = some default → default.KeysDistinct)
    (path place : Path) {object other : Entries Json} (h : object.Related Json.Alike other)
    {done done' : Entries Json} (hdone : MembersMatch ordered done done') :
    Agree (MembersMatch ordered) (checkMembers checker bindings object path fields done)
      (checkMembers checker bindings other place fields done') := by
  induction fields generalizing done done' with
  | nil => exact .ok hdone
  | cons f rest ih =>
    rw [List.forall_mem_cons] at hc hdefaults
    unfold checkMembers
    cases hget : object.get? f.name with
    | some v =>
      obtain ⟨w, hget', hvw⟩ := h.found f.name v hget
      rw [hget']
      exact (hc.1 v w _ _ hvw).bind fun out out' hout => ih hc.2 hdefaults.2 (hdone.put f.name hout)
    | none =>
      rw [h.missing f.name hget]
      dsimp only
      cases hdefault : f.default with
      | some default =>
        exact ih hc.2 hdefaults.2 (hdone.put f.name (.refl (hdefaults.1 default hdefault)))
      | none =>
        dsimp only
        split
        · exact .errorLeft _
        · exact ih hc.2 hdefaults.2 hdone

theorem checkFields_agree {s : StructDef} {args : List Ty}
    (hc : s.generics.length = args.length → ∀ f ∈ s.fields,
      CarriesOver ordered checker (f.shape.1.substitute (Ty.bind s.generics args)))
    (hdefaults : ∀ f ∈ s.fields, ∀ default, f.default = some default → default.KeysDistinct)
    {v w : Json} (path place : Path) (hvw : v.Alike w) :
    Agree (MembersMatch ordered) (checkFields checker s args v path)
      (checkFields checker s args w place) := by
  unfold checkFields checkArity
  split
  · rename_i hl
    cases v with
    | object object =>
      obtain ⟨other, rfl, -, -, hrelated⟩ := hvw.exists_object
      exact checkMembers_agree (hc hl) hdefaults path place hrelated .nil
    | _ => exact .errorLeft _
  · exact .errorLeft _

theorem checkContainer_items_agree {elem : Ty} (hc : CarriesOver ordered checker elem)
    {v w : Json} (path place : Path) (hvw : v.Alike w) :
    Agree (Matches ordered) (checkContainer.items checker v path elem)
      (checkContainer.items checker w place elem) := by
  unfold checkContainer.items
  cases v with
  | array items =>
    obtain ⟨others, rfl, heach⟩ := hvw.exists_array
    exact (checkItems_agree hc path place 0 heach).map fun _ _ => Matches.array
  | _ => exact .errorLeft _

theorem checkContainer_places_agree {elems : List Ty}
    (hc : ∀ ty ∈ elems, CarriesOver ordered checker ty) {v w : Json} (path place : Path)
    (hvw : v.Alike w) :
    Agree (Matches ordered) (checkContainer checker .tuple elems false v path)
      (checkContainer checker .tuple elems false w place) := by
  rw [checkContainer_tuple, checkContainer_tuple]
  cases v with
  | array items =>
    obtain ⟨others, rfl, heach⟩ := hvw.exists_array
    dsimp only [Json.items?]
    rw [heach.length_eq]
    split
    · exact .errorLeft _
    · exact (checkPlaces_agree hc path place 0 heach).map fun _ _ => Matches.array
  | _ => exact .errorLeft _

theorem checkContainer_entries_agree
    (hs : ∀ ty v path, Settles (checker ty v path) (Inhabits types ty v)) {keyTy valueTy : Ty}
    (hc : CarriesOver ordered checker valueTy) (hfree : ¬ ordered) {v w : Json} (path place : Path)
    (hvw : v.Alike w) :
    Agree (Matches ordered) (checkContainer checker .record [keyTy, valueTy] false v path)
      (checkContainer checker .record [keyTy, valueTy] false w place) := by
  rw [checkContainer_record, checkContainer_record]
  cases v with
  | object members =>
    obtain ⟨others, rfl, hkeys, hkeys', hrelated⟩ := hvw.exists_object
    exact (checkEntries_agree hs hc path place hkeys hkeys' hrelated hfree).map fun _ _ h => h
  | _ => exact .errorLeft _

theorem checkContainer_agree
    (hs : ∀ ty v path, Settles (checker ty v path) (Inhabits types ty v)) {kind : ContainerKind}
    {elems : List Ty} {variadic : Bool} (hc : ∀ ty ∈ elems, CarriesOver ordered checker ty)
    (hfree : kind = .record → ¬ ordered) {v w : Json} (path place : Path) (hvw : v.Alike w) :
    Agree (Matches ordered) (checkContainer checker kind elems variadic v path)
      (checkContainer checker kind elems variadic w place) := by
  by_cases hfits : kind.Admits elems.length variadic
  · cases hfits.form with
    | array elem => exact checkContainer_items_agree (hc elem List.mem_cons_self) path place hvw
    | variadic elem => exact checkContainer_items_agree (hc elem List.mem_cons_self) path place hvw
    | tuple => exact checkContainer_places_agree hc path place hvw
    | record key value =>
      exact checkContainer_entries_agree hs (hc value (by simp)) (hfree rfl) path place hvw
  · rw [checkContainer_of_not_admits hfits]
    exact .errorLeft _

theorem checkDefinition_agree {body : Definition} {args : List Ty}
    (hc : body.generics.length = args.length → ∀ ty ∈ body.expressions,
      CarriesOver ordered checker (ty.substitute (Ty.bind body.generics args)))
    (hdefaults : ∀ s, body = .struct s → ∀ f ∈ s.fields, ∀ default, f.default = some default →
      default.KeysDistinct)
    (hfree : ∀ e, body = .enumeration e → ¬ ordered) {v w : Json} (path place : Path)
    (hvw : v.Alike w) :
    Agree (Matches ordered) (checkDefinition checker body args v path)
      (checkDefinition checker body args w place) := by
  cases body with
  | struct s =>
    have hinside : s.generics.length = args.length → ∀ f ∈ s.fields,
        CarriesOver ordered checker (f.shape.1.substitute (Ty.bind s.generics args)) :=
      fun hl f hf => hc hl _ (List.mem_map_of_mem hf)
    exact (checkFields_agree hinside (hdefaults s rfl) path place hvw).map
      fun _ _ h => h.object
  | enumeration e =>
    refine accept_agree _ _ path place _ _ fun _ _ => ?_
    exact ⟨hvw.equal, fun hordered => absurd hordered (hfree e rfl)⟩
  | «alias» a =>
    change Agree (Matches ordered) (checkArity a.name a.generics args >>= fun _ => checker _ v path)
      (checkArity a.name a.generics args >>= fun _ => checker _ w place)
    unfold checkArity
    split
    · rename_i hl
      exact hc hl a.ty List.mem_cons_self v w path place hvw
    · exact .errorLeft _

end Parts

/-! ## 5. The check -/

/-- The types that hand the keys of an object on in the order in which they have come. -/
inductive KeepsOrder (types : TypeTable) : Ty → Prop where
  | any : KeepsOrder types .any
  | generic (name : String) : KeepsOrder types (.generic name)
  | literals (values : List Json) : KeepsOrder types (.literals values)
  | record (elems : List Ty) (variadic : Bool) :
      KeepsOrder types (.container .record elems variadic)
  | enumeration (target : DefId) (args : List Ty) (e : EnumDef)
      (he : types.get target = .ok (.enumeration e)) : KeepsOrder types (.named target args)

/-- **Of values that are alike the check makes values that match**, in one order of keys if no type
    that it comes to keeps the order of the value. The induction is on the levels. -/
theorem check_carriesOver {types : TypeTable} (hdefaults : types.DefaultsDistinct) (left : Nat)
    {ordered : Prop} {ty : Ty}
    (hfree : ordered → ∀ inner, Reaches types ty inner → ¬ KeepsOrder types inner) :
    CarriesOver ordered (check types left) ty := by
  induction left generalizing ty with
  | zero => exact fun v w path place hvw => .errorLeft _
  | succ left ih =>
    intro v w path place hvw
    have hinner : ∀ inner, Hands types ty inner → CarriesOver ordered (check types left) inner :=
      fun inner hhands => ih fun hordered last hlast =>
        hfree hordered last (.head hhands hlast)
    have hkept : KeepsOrder types ty → Matches ordered v w := fun hkeeps =>
      ⟨hvw.equal, fun hordered => absurd hkeeps (hfree hordered ty .refl)⟩
    cases ty with
    | primitive kind =>
      have hkind : ∀ (ok : Json → Bool) expected, (ok v = true → isOfKind v kind = true) →
        (ok w = true → isOfKind w kind = true) → Agree (Matches ordered)
          (accept (ok v) v path expected) (accept (ok w) w place expected) :=
        fun ok expected hv hw => accept_agree _ _ path place _ _ fun h h' =>
          .of_isOfKind hvw.equal (hv h) (hw h')
      cases kind <;> exact hkind _ _ id id
    | any => exact .ok (hkept .any)
    | generic name => exact .ok (hkept (.generic name))
    | absent =>
      have hnull : ∀ u : Json, u.isNull = true → isOfKind u .null = true := fun u hu => hu
      refine accept_agree _ _ path place _ _ fun hv hw => ?_
      exact .of_isOfKind hvw.equal (hnull v hv) (hnull w hw)
    | optional inner =>
      rw [check_optional, check_optional, hvw.isNull_eq]
      split
      · exact .ok (.refl .null)
      · exact hinner inner (.optional inner) v w path place hvw
    | literals values =>
      exact accept_agree _ _ path place _ _ fun _ _ => hkept (.literals values)
    | union members =>
      exact checkUnion_agree (check_settles types left)
        (fun member hm => hinner member (.union members member hm)) path place hvw
    | container kind elems variadic =>
      refine checkContainer_agree (check_settles types left)
        (fun elem he => hinner elem (.container kind elems variadic elem he)) ?_ path place hvw
      rintro rfl hordered
      exact hfree hordered _ .refl (.record elems variadic)
    | named target args =>
      cases hget : types.get target with
      | error fault =>
        rw [check_named_of_error hget]
        exact .errorLeft _
      | ok body =>
        rw [check_named hget, check_named hget]
        refine checkDefinition_agree
          (fun hl ty hty => hinner _ (.named target args body ty hget hl hty)) ?_ ?_ path place hvw
        · rintro s rfl
          exact hdefaults target s hget
        · rintro e rfl hordered
          exact hfree hordered _ .refl (.enumeration target args e hget)

/-- The outcome says nothing of the value. -/
def EndsOpen {α : Type} (outcome : Except Fault α) : Prop :=
  ∃ fault, outcome = .error fault ∧ fault.IsOpen

theorem Settles.isMismatch_or_isOpen {α : Type} {fault : Fault} {p : Prop}
    (h : Settles (.error fault : Except Fault α) p) :
    (fault.isMismatch = true ∧ ¬ p) ∨ fault.IsOpen := by
  cases fault with
  | mismatch => exact .inl ⟨rfl, h⟩
  | missing => exact .inl ⟨rfl, h⟩
  | tooDeep => exact .inr trivial
  | schema => exact .inr trivial
  | notJson => exact h.elim

/-- A comparison that says something of the value takes it or refuses it. -/
theorem Settles.ok_or_refused {α : Type} {outcome : Except Fault α} {p : Prop}
    (h : Settles outcome p) (hends : ¬ EndsOpen outcome) :
    (∃ out, outcome = .ok out ∧ p) ∨
      ∃ fault, outcome = .error fault ∧ fault.isMismatch = true ∧ ¬ p := by
  cases outcome with
  | ok out => exact .inl ⟨out, rfl, h⟩
  | error fault =>
    rcases h.isMismatch_or_isOpen with hrefused | hopen
    · exact .inr ⟨fault, rfl, hrefused⟩
    · exact absurd ⟨fault, rfl, hopen⟩ hends

/-- **The order of keys does not matter.** Of two equal values, as far as the check says something
    of both, it takes both or refuses both; and what it makes of them is equal, with the keys of
    objects in one order if it comes to no type that keeps the order of the value. -/
theorem key_order_never_matters {types : TypeTable} (hdefaults : types.DefaultsDistinct)
    {level : Nat} {ty : Ty} {v w : Json} {path place : Path} (hv : v.KeysDistinct)
    (hw : w.KeysDistinct) (hequal : (v == w) = true)
    (hends : ¬ EndsOpen (checkFrom types level ty v path))
    (hends' : ¬ EndsOpen (checkFrom types level ty w place)) :
    (∃ out other, checkFrom types level ty v path = .ok out ∧
      checkFrom types level ty w place = .ok other ∧ (out == other) = true ∧
      ((∀ inner, Reaches types ty inner → ¬ KeepsOrder types inner) →
        out.outline = other.outline)) ∨
      ∃ fault other, checkFrom types level ty v path = .error fault ∧
        checkFrom types level ty w place = .error other ∧ fault.isMismatch = true ∧
        other.isMismatch = true := by
  have hvw : v.Alike w := ⟨hv, hw, hequal⟩
  have hsettles := (check_settles types (depthLimit - level) ty v path).ok_or_refused hends
  have hsettles' := (check_settles types (depthLimit - level) ty w place).ok_or_refused hends'
  rcases hsettles with ⟨out, hout, htaken⟩ | ⟨fault, hfault, hm, hrefused⟩
  · rcases hsettles' with ⟨other, hother, -⟩ | ⟨fault, -, -, hrefused⟩
    · have hmatches := check_carriesOver hdefaults _ id v w path place hvw out other hout hother
      exact .inl ⟨out, other, hout, hother, hmatches.equal, hmatches.inOrder⟩
    · exact absurd (inhabits_congr htaken hvw) hrefused
  · rcases hsettles' with ⟨other, -, htaken⟩ | ⟨fault', hfault', hm', -⟩
    · exact absurd (inhabits_congr htaken hvw.symm) hrefused
    · exact .inr ⟨fault, fault', hfault, hfault', hm, hm'⟩

/-- Letters to one person or to several of them. -/
def letters : TypeTable where
  slots := [
    .defined (.struct
      { name := "Person"
        fields := [
          { name := "name", ty := .string },
          { name := "age", ty := .optional .number }] }),
    .defined (.struct
      { name := "Letter"
        fields := [
          { name := "to", ty := .union [.named 0 [], .container .array [.named 0 []] false] },
          { name := "copies", ty := .number, default := some (.number (.integer 1)) }] })]

theorem letters_defaultsDistinct : letters.DefaultsDistinct := by
  intro id s hs f hf default hdefault
  match id with
  | 0 =>
    cases hs
    simp only [List.mem_cons, List.not_mem_nil, or_false] at hf
    rcases hf with rfl | rfl <;> cases hdefault
  | 1 =>
    cases hs
    simp only [List.mem_cons, List.not_mem_nil, or_false] at hf
    rcases hf with rfl | rfl <;> cases hdefault
    constructor
  | _ + 2 => cases hs

/-- The types that a check of a letter comes to. -/
def letterTypes : List Ty :=
  [.named 1 [], .union [.named 0 [], .container .array [.named 0 []] false], .number,
    .container .array [.named 0 []] false, .named 0 [], .string]

theorem mem_letterTypes {ty inner : Ty} (h : ty ∈ letterTypes) (hhands : Hands letters ty inner) :
    inner ∈ letterTypes := by
  simp only [letterTypes, List.mem_cons, List.not_mem_nil, or_false] at h
  rcases h with rfl | rfl | rfl | rfl | rfl | rfl
  · cases hhands with
    | named _ _ body ty hb _ hty =>
      cases hb
      change ty ∈ [.union [.named 0 [], .container .array [.named 0 []] false], .number] at hty
      simp only [List.mem_cons, List.not_mem_nil, or_false] at hty
      rcases hty with rfl | rfl
      · exact List.mem_of_getElem? (i := 1) rfl
      · exact List.mem_of_getElem? (i := 2) rfl
  · cases hhands with
    | union _ _ hm =>
      simp only [List.mem_cons, List.not_mem_nil, or_false] at hm
      rcases hm with rfl | rfl
      · exact List.mem_of_getElem? (i := 4) rfl
      · exact List.mem_of_getElem? (i := 3) rfl
  · cases hhands
  · cases hhands with
    | container _ _ _ _ hm =>
      obtain rfl := List.mem_singleton.mp hm
      exact List.mem_of_getElem? (i := 4) rfl
  · cases hhands with
    | named _ _ body ty hb _ hty =>
      cases hb
      change ty ∈ [.string, .number] at hty
      simp only [List.mem_cons, List.not_mem_nil, or_false] at hty
      rcases hty with rfl | rfl
      · exact List.mem_of_getElem? (i := 5) rfl
      · exact List.mem_of_getElem? (i := 2) rfl
  · cases hhands

/-- None of them keeps the order of keys. -/
theorem not_keepsOrder_of_reaches_letter {inner : Ty}
    (h : Reaches letters (.named 1 []) inner) : ¬ KeepsOrder letters inner := by
  have hinner : inner ∈ letterTypes :=
    h.closed (fun ty inner => mem_letterTypes) List.mem_cons_self
  simp only [letterTypes, List.mem_cons, List.not_mem_nil, or_false] at hinner
  intro hkeeps
  rcases hinner with rfl | rfl | rfl | rfl | rfl | rfl
  · cases hkeeps with
    | enumeration _ _ e he => cases he
  · cases hkeeps
  · cases hkeeps
  · cases hkeeps
  · cases hkeeps with
    | enumeration _ _ e he => cases he
  · cases hkeeps

/-- A letter to one person, with a remark that letters do not declare. -/
def letter : Json :=
  .object [("to", .array [.object [("age", .number (.integer 7)), ("name", .string "Ada")]]),
    ("remark", .null)]

/-- The same letter with its keys in another order. -/
def turnedLetter : Json :=
  .object [("remark", .null),
    ("to", .array [.object [("name", .string "Ada"), ("age", .number (.integer 7))]])]

theorem letter_keysDistinct : letter.KeysDistinct := by
  have hperson : (Json.object [("age", .number (.integer 7)),
      ("name", .string "Ada")]).KeysDistinct := by
    refine .object _ (by decide) ?_
    simp only [List.forall_mem_cons]
    exact ⟨.number _, .string _, by simp⟩
  refine .object _ (by decide) ?_
  simp only [List.forall_mem_cons]
  exact ⟨.array _ (by simpa using hperson), .null, by simp⟩

theorem turnedLetter_keysDistinct : turnedLetter.KeysDistinct := by
  have hperson : (Json.object [("name", .string "Ada"),
      ("age", .number (.integer 7))]).KeysDistinct := by
    refine .object _ (by decide) ?_
    simp only [List.forall_mem_cons]
    exact ⟨.string _, .number _, by simp⟩
  refine .object _ (by decide) ?_
  simp only [List.forall_mem_cons]
  exact ⟨.null, .array _ (by simpa using hperson), by simp⟩

/-- Both are taken, without the remark, with one copy, and with every key in its place. -/
theorem key_order_never_matters_letter :
    (letter == turnedLetter) = true ∧ letter.outline ≠ turnedLetter.outline ∧
      ∃ out other, checkFrom letters 0 (.named 1 []) letter [] = .ok out ∧
        checkFrom letters 0 (.named 1 []) turnedLetter [] = .ok other ∧ (out == other) = true ∧
        out.outline = other.outline := by
  have hends : ∀ v out, checkFrom letters 0 (.named 1 []) v [] = .ok out →
      ¬ EndsOpen (checkFrom letters 0 (.named 1 []) v []) := by
    rintro v out hout ⟨fault, hfault, -⟩
    cases hout.symm.trans hfault
  have hequal : (letter == turnedLetter) = true := by decide +kernel
  have houtline : letter.outline ≠ turnedLetter.outline := by
    simp [letter, turnedLetter, Json.outline_object]
  rcases key_order_never_matters letters_defaultsDistinct letter_keysDistinct
    turnedLetter_keysDistinct hequal (hends _ _ rfl) (hends _ _ rfl) with
    ⟨out, other, hout, hother, hequal', hinOrder⟩ | ⟨fault, -, hfault, -⟩
  · exact ⟨hequal, houtline, out, other, hout, hother, hequal',
      hinOrder fun inner => not_keepsOrder_of_reaches_letter⟩
  · cases hfault

end Wire

end WireContract
