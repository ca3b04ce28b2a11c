import WireContract.Proofs.Wire.Inhabitation

/-!
# The check decides membership

The check looks at a type through a number of levels and tries the members of a union one after
another, so that it may have to give up. Where it does not, it decides membership.

* `Settles`: what the outcome of a comparison says about a proposition;
* `checkUnion_settles` and its neighbours: every part of the check settles its part of membership
  as far as the comparison that it is given settles it for single values;
* `check_settles`: with any number of levels left, the check settles membership;
* `checkFrom_decides_membership`: the same, outcome by outcome, for every level to start on.
-/

namespace WireContract.Wire

/-! ## 1. Outcomes and propositions -/

/-- What an outcome says about a proposition: success that it holds, a mismatch that it does not.
    Too deep a value and a fault of the type say nothing; other outcomes there are none. -/
def Settles {α : Type} (outcome : Except Fault α) (p : Prop) : Prop :=
  match outcome with
  | .ok _ => p
  | .error (.mismatch _ _) => ¬ p
  | .error (.missing _ _) => ¬ p
  | .error (.tooDeep _) => True
  | .error (.schema _) => True
  | .error (.notJson _) => False

namespace Settles

variable {α β : Type} {p q : Prop}

theorem congr {outcome : Except Fault α} (h : Settles outcome p) (hpq : p ↔ q) :
    Settles outcome q := by
  rwa [← propext hpq]

theorem map {outcome : Except Fault α} (f : α → β) (h : Settles outcome p) :
    Settles (outcome.map f) p := by
  cases outcome with
  | ok a => exact h
  | error fault => cases fault <;> exact h

/-- One comparison behind another: the second is made only if the first succeeds. -/
theorem bind {outcome : Except Fault α} {f : α → Except Fault β} (h : Settles outcome p)
    (hf : ∀ a, outcome = .ok a → Settles (f a) q) : Settles (outcome >>= f) (p ∧ q) := by
  cases outcome with
  | ok a => exact (hf a rfl).congr ⟨fun hq => ⟨h, hq⟩, And.right⟩
  | error fault =>
    cases fault with
    | mismatch => exact fun hpq => h hpq.1
    | missing => exact fun hpq => h hpq.1
    | tooDeep => trivial
    | schema => trivial
    | notJson => exact h

/-- A fault that ends every attempt says nothing, whatever it is asked about. -/
theorem of_not_mismatch {fault : Fault} (h : Settles (.error fault : Except Fault α) p)
    (hf : fault.isMismatch = false) : Settles (.error fault : Except Fault β) q := by
  cases fault with
  | mismatch => cases hf
  | missing => cases hf
  | tooDeep => trivial
  | schema => trivial
  | notJson => exact h

/-- A mismatch denies the proposition. -/
theorem not_of_mismatch {fault : Fault} (h : Settles (.error fault : Except Fault α) p)
    (hf : fault.isMismatch = true) : ¬ p := by
  cases fault with
  | mismatch => exact h
  | missing => exact h
  | tooDeep => cases hf
  | schema => cases hf
  | notJson => cases hf

end Settles

theorem accept_settles {ok : Bool} {p : Prop} (v : Json) (path : Path) (expected : Expected)
    (h : ok = true ↔ p) : Settles (accept ok v path expected) p := by
  unfold accept
  split
  · rename_i hok
    exact h.mp hok
  · rename_i hok
    exact fun hp => hok (h.mpr hp)

theorem checkArity_settles (name : String) (generics : List String) (args : List Ty) :
    Settles (checkArity name generics args) True := by
  unfold checkArity
  split <;> trivial

/-! ## 2. The parts of the check -/

section Parts

variable {checker : Checker} {fits : Ty → Json → Prop}
  (hc : ∀ ty v path, Settles (checker ty v path) (fits ty v))

include hc

/-- The members are tried in order; only a mismatch lets the search go on, so that at its end
    every member is denied. -/
theorem checkUnion_settles (members : List Ty) (v : Json) (path : Path) :
    Settles (checkUnion checker members v path) (∃ member ∈ members, fits member v) := by
  induction members with
  | nil => simp [checkUnion, Settles]
  | cons ty rest ih =>
    have hty := hc ty v path
    unfold checkUnion
    split
    · rename_i out hout
      rw [hout] at hty
      exact ⟨ty, List.mem_cons_self, hty⟩
    · rename_i fault hfault
      rw [hfault] at hty
      split
      · rename_i hm
        have hn := hty.not_of_mismatch hm
        refine ih.congr ⟨?_, ?_⟩
        · intro h
          rcases h with ⟨member, hmem, h⟩
          exact ⟨member, List.mem_cons_of_mem ty hmem, h⟩
        · intro h
          rcases h with ⟨member, hmem, h⟩
          rcases List.mem_cons.mp hmem with rfl | hrest
          · exact absurd h hn
          · exact ⟨member, hrest, h⟩
      · rename_i hm
        exact hty.of_not_mismatch (by simpa using hm)

theorem checkItems_settles (elem : Ty) (path : Path) (index : Nat) (items : List Json) :
    Settles (checkItems checker elem path index items) (∀ v ∈ items, fits elem v) := by
  induction items generalizing index with
  | nil => exact fun v hv => absurd hv List.not_mem_nil
  | cons v rest ih =>
    unfold checkItems
    refine Settles.congr ?_ List.forall_mem_cons.symm
    refine (hc elem v _).bind fun out _ => ?_
    exact (ih (index + 1)).map (out :: ·)

theorem checkPlaces_settles (path : Path) (index : Nat) (elems : List Ty) (items : List Json) :
    Settles (checkPlaces checker path index elems items)
      (∀ p ∈ elems.zip items, fits p.1 p.2) := by
  induction elems generalizing index items with
  | nil => exact fun p hp => absurd hp List.not_mem_nil
  | cons ty tys ih =>
    cases items with
    | nil => exact fun p hp => absurd hp List.not_mem_nil
    | cons v rest =>
      unfold checkPlaces
      refine Settles.congr ?_ List.forall_mem_cons.symm
      refine (hc ty v _).bind fun out _ => ?_
      exact (ih (index + 1) rest).map (out :: ·)

/-- Against the type of numbers the check is handed a number in place of the key; that comparison
    may still give up, but it cannot refuse. -/
theorem checkKey_settles (hn : ∀ n, fits .number (.number n)) (ty : Ty) (key : String)
    (path : Path) : Settles (checkKey checker ty key path) (KeyFits fits ty key) := by
  unfold checkKey
  split
  · refine Settles.congr ?_ (keyFits_number key).symm
    split
    · rename_i hfinite
      exact ((hc .number _ path).map _).congr ⟨fun _ => hfinite, fun _ => hn _⟩
    · rename_i hfinite
      exact hfinite
  · rename_i hty
    exact ((hc ty _ path).map _).congr (keyFits_of_ne hty key).symm

theorem checkEntries_settles (hn : ∀ n, fits .number (.number n)) (keyTy valueTy : Ty) (path : Path)
    (members done : Entries Json) :
    Settles (checkEntries checker keyTy valueTy path members done)
      (∀ e ∈ members, KeyFits fits keyTy e.1 ∧ fits valueTy e.2) := by
  induction members generalizing done with
  | nil => exact fun e he => absurd he List.not_mem_nil
  | cons e rest ih =>
    obtain ⟨key, v⟩ := e
    unfold checkEntries
    refine Settles.congr ?_ List.forall_mem_cons.symm
    refine Settles.congr ?_ and_assoc.symm
    refine (checkKey_settles hc hn keyTy key _).bind fun _ _ => ?_
    refine (hc valueTy v _).bind fun out _ => ?_
    exact ih (done.put key out)

/-- The fields are looked at one after another, and each by itself: what was put together so far
    has no influence. -/
theorem checkMembers_settles (bindings : Ty.Bindings) (object : Entries Json) (path : Path)
    (fields : List Field) (done : Entries Json) :
    Settles (checkMembers checker bindings object path fields done)
      (∀ f ∈ fields, FieldFits fits bindings object f) := by
  induction fields generalizing done with
  | nil => exact fun f hf => absurd hf List.not_mem_nil
  | cons f rest ih =>
    refine Settles.congr ?_ List.forall_mem_cons.symm
    unfold checkMembers
    split
    · rename_i v hv
      refine Settles.congr ?_ (and_congr_left' (fieldFits_of_some hv).symm)
      exact (hc _ v _).bind fun out _ => ih (done.put f.name out)
    · rename_i hv
      refine Settles.congr ?_ (and_congr_left' (fieldFits_of_none hv).symm)
      split
      · rename_i default hdefault
        exact (ih (done.put f.name default)).congr (by simp [hdefault])
      · rename_i hdefault
        split
        · rename_i hrequired
          simp [Settles, hdefault, hrequired]
        · rename_i hrequired
          exact (ih done).congr (by simp [hrequired])

theorem checkFields_settles (s : StructDef) (args : List Ty) (v : Json) (path : Path) :
    Settles (checkFields checker s args v path)
      (∃ object : Entries Json, v = .object object ∧
        ∀ f ∈ s.fields, FieldFits fits (Ty.bind s.generics args) object f) := by
  unfold checkFields
  refine Settles.congr ?_ (iff_of_eq (true_and _))
  refine (checkArity_settles s.name s.generics args).bind fun _ _ => ?_
  cases v with
  | object members =>
    refine (checkMembers_settles hc _ members path s.fields []).congr ⟨?_, ?_⟩
    · exact fun h => ⟨members, rfl, h⟩
    · intro h
      rcases h with ⟨object, hobject, h⟩
      cases hobject
      exact h
  | _ =>
    intro h
    rcases h with ⟨object, hobject, -⟩
    cases hobject

/-- A list of values against one type for all of them. -/
theorem checkContainer_items_settles (elem : Ty) (v : Json) (path : Path) :
    Settles (checkContainer.items checker v path elem)
      (∃ items, v = .array items ∧ ∀ w ∈ items, fits elem w) := by
  unfold checkContainer.items
  cases v with
  | array items =>
    refine ((checkItems_settles hc elem path 0 items).map _).congr ⟨?_, ?_⟩
    · exact fun h => ⟨items, rfl, h⟩
    · intro h
      rcases h with ⟨items', hitems, h⟩
      cases hitems
      exact h
  | _ =>
    intro h
    rcases h with ⟨items, hitems, -⟩
    cases hitems

end Parts

/-! ## 3. Types -/

section Types

variable {types : TypeTable} {checker : Checker}

theorem checkContainer_settles
    (hc : ∀ ty v path, Settles (checker ty v path) (Inhabits types ty v)) (kind : ContainerKind)
    (elems : List Ty) (variadic : Bool) (v : Json) (path : Path) :
    Settles (checkContainer checker kind elems variadic v path)
      (Inhabits types (.container kind elems variadic) v) := by
  unfold checkContainer
  split
  · exact (checkContainer_items_settles hc _ v path).congr inhabits_array_iff.symm
  · exact (checkContainer_items_settles hc _ v path).congr inhabits_variadic_iff.symm
  · refine Settles.congr ?_ inhabits_tuple_iff.symm
    cases v with
    | array items =>
      simp only [Json.items?]
      split
      · rename_i hl
        intro h
        rcases h with ⟨items', hitems, hl', -⟩
        cases hitems
        exact hl hl'
      · rename_i hl
        refine ((checkPlaces_settles hc path 0 _ items).map _).congr ⟨?_, ?_⟩
        · exact fun h => ⟨items, rfl, Classical.not_not.mp hl, h⟩
        · intro h
          rcases h with ⟨items', hitems, -, h⟩
          cases hitems
          exact h
    | _ =>
      intro h
      rcases h with ⟨items, hitems, -⟩
      cases hitems
  · refine Settles.congr ?_ inhabits_record_iff.symm
    cases v with
    | object members =>
      refine ((checkEntries_settles hc .number _ _ path members []).map _).congr ⟨?_, ?_⟩
      · exact fun h => ⟨members, rfl, h⟩
      · intro h
        rcases h with ⟨members', hmembers, h⟩
        cases hmembers
        exact h
    | _ =>
      intro h
      rcases h with ⟨members, hmembers, -⟩
      cases hmembers
  · trivial

theorem checkDefinition_settles
    (hc : ∀ ty v path, Settles (checker ty v path) (Inhabits types ty v)) {target : DefId}
    {body : Definition} (hb : types.get target = .ok body) (args : List Ty) (v : Json)
    (path : Path) :
    Settles (checkDefinition checker body args v path) (Inhabits types (.named target args) v) := by
  cases body with
  | struct s =>
    exact ((checkFields_settles hc s args v path).map _).congr (inhabits_struct_iff hb).symm
  | enumeration e =>
    refine accept_settles v path _ ?_
    rw [inhabits_enumeration_iff hb, List.any_eq_true]
  | «alias» a =>
    refine Settles.congr ?_ (inhabits_alias_iff hb).symm
    refine Settles.congr ?_ (iff_of_eq (true_and _))
    exact (checkArity_settles a.name a.generics args).bind fun _ _ => hc _ v path

end Types

/-- **With any number of levels left, the check settles membership.** The induction is on the
    levels: every part of the check is handed the check with one level less. -/
theorem check_settles (types : TypeTable) (left : Nat) (ty : Ty) (v : Json) (path : Path) :
    Settles (check types left ty v path) (Inhabits types ty v) := by
  induction left generalizing ty v path with
  | zero => trivial
  | succ left ih =>
    cases ty with
    | primitive kind =>
      refine Settles.congr ?_ inhabits_primitive_iff.symm
      cases kind <;> exact accept_settles v path _ Iff.rfl
    | any => exact .any v
    | generic name => exact .generic name v
    | absent => exact accept_settles v path _ inhabits_absent_iff.symm
    | optional inner =>
      rw [check_optional]
      split
      · rename_i hn
        exact inhabits_optional_iff.mpr (Or.inl hn)
      · rename_i hn
        refine (ih inner v path).congr ?_
        rw [inhabits_optional_iff, or_iff_right hn]
    | literals values =>
      refine accept_settles v path _ ?_
      rw [inhabits_literals_iff, List.any_eq_true]
    | union members =>
      exact (checkUnion_settles ih members v path).congr inhabits_union_iff.symm
    | container kind elems variadic => exact checkContainer_settles ih kind elems variadic v path
    | named target args =>
      cases hb : types.get target with
      | error fault =>
        rw [check_named_of_error hb]
        trivial
      | ok body =>
        rw [check_named hb]
        exact checkDefinition_settles ih hb args v path

/-- **The check decides membership, on whatever level it starts**: what it takes is an inhabitant
    of the type, and what it refuses as a mismatch or for a missing field is none. The only other
    outcomes are a value that goes too deep and a type that is itself at fault. -/
theorem checkFrom_decides_membership (types : TypeTable) (level : Nat) (ty : Ty) (v : Json)
    (path : Path) :
    (∀ out, checkFrom types level ty v path = .ok out → Inhabits types ty v) ∧
      ∀ fault, checkFrom types level ty v path = .error fault →
        (fault.isMismatch = true ∧ ¬ Inhabits types ty v) ∨
          (∃ place, fault = .tooDeep place) ∨ ∃ reason, fault = .schema reason := by
  have h : Settles (checkFrom types level ty v path) (Inhabits types ty v) :=
    check_settles types _ ty v path
  refine ⟨fun out hout => ?_, fun fault hfault => ?_⟩
  · rwa [hout] at h
  · rw [hfault] at h
    cases fault with
    | mismatch => exact Or.inl ⟨rfl, h⟩
    | missing => exact Or.inl ⟨rfl, h⟩
    | tooDeep place => exact Or.inr (Or.inl ⟨place, rfl⟩)
    | schema reason => exact Or.inr (Or.inr ⟨reason, rfl⟩)
    | notJson => exact h.elim

end WireContract.Wire
