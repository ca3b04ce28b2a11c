import WireContract.Wire.Check

/-!
# Places are for faults only

A comparison is told the place of its value and writes it into its fault, and for nothing else. So
the check of a value that is found further down has the outcome that it would have at the root, with
the way down put in front of the place of its fault; and a value that is taken at one place is taken
at every other.

* `Fault.under`: a fault with the way to its value put in front of its place;
* `PlacesFaults`: a comparison that uses the place for its fault only;
* `check_under`: the check is one; `check_ok_anywhere`: what it takes does not depend on the place.
-/

namespace WireContract.Wire

/-- The same fault in a value that is found at a place. -/
def Fault.under (above : Path) : Fault → Fault
  | .mismatch path expected => .mismatch (above ++ path) expected
  | .missing path field => .missing (above ++ path) field
  | .tooDeep path => .tooDeep (above ++ path)
  | .notJson error => .notJson error
  | .schema reason => .schema reason

@[simp] theorem Fault.isMismatch_under (above : Path) (fault : Fault) :
    (fault.under above).isMismatch = fault.isMismatch := by
  cases fault <;> rfl

/-! ## 1. Outcomes -/

section Outcomes

variable {α β : Type} (above : Path)

/-- The same outcome for a value that is found at a place. -/
def under (outcome : Except Fault α) : Except Fault α := outcome.mapError (Fault.under above)

@[simp] theorem under_ok (a : α) : under above (.ok a) = .ok a := rfl

@[simp] theorem under_error (fault : Fault) :
    under above (.error fault : Except Fault α) = .error (fault.under above) := rfl

theorem under_bind (outcome : Except Fault α) (f : α → Except Fault β) :
    under above (outcome >>= f) = under above outcome >>= fun a => under above (f a) := by
  cases outcome <;> rfl

theorem under_map (f : α → β) (outcome : Except Fault α) :
    under above (outcome.map f) = (under above outcome).map f := by
  cases outcome <;> rfl

theorem under_eq_ok_iff {outcome : Except Fault α} {a : α} :
    under above outcome = .ok a ↔ outcome = .ok a := by
  cases outcome with
  | ok b => rw [under_ok]
  | error fault => simp

end Outcomes

/-! ## 2. The parts of the check -/

/-- Whether a comparison uses the place of a value for its fault only. -/
def PlacesFaults (checker : Checker) : Prop :=
  ∀ ty v above path, checker ty v (above ++ path) = under above (checker ty v path)

theorem accept_under (ok : Bool) (v : Json) (above path : Path) (expected : Expected) :
    accept ok v (above ++ path) expected = under above (accept ok v path expected) := by
  cases ok <;> rfl

/-- The number of arguments is not looked for at a place. -/
theorem under_checkArity (above : Path) (name : String) (generics : List String) (args : List Ty) :
    under above (checkArity name generics args) = checkArity name generics args := by
  unfold checkArity
  split <;> rfl

section Parts

variable {checker : Checker} (hc : PlacesFaults checker)

include hc

theorem checkUnion_under (members : List Ty) (v : Json) (above path : Path) :
    checkUnion checker members v (above ++ path) =
      under above (checkUnion checker members v path) := by
  induction members with
  | nil => rfl
  | cons ty rest ih =>
    rw [checkUnion, checkUnion, hc]
    cases checker ty v path with
    | ok out => rfl
    | error fault =>
      simp only [under_error, Fault.isMismatch_under, ih]
      split <;> rfl

theorem checkItems_under (elem : Ty) (above path : Path) (index : Nat) (items : List Json) :
    checkItems checker elem (above ++ path) index items =
      under above (checkItems checker elem path index items) := by
  induction items generalizing index with
  | nil => rfl
  | cons v rest ih =>
    simp only [checkItems, List.append_assoc, hc elem v above, ih, under_bind]
    rfl

theorem checkPlaces_under (above path : Path) (index : Nat) (elems : List Ty)
    (items : List Json) :
    checkPlaces checker (above ++ path) index elems items =
      under above (checkPlaces checker path index elems items) := by
  induction elems generalizing index items with
  | nil => rfl
  | cons ty tys ih =>
    cases items with
    | nil => rfl
    | cons v rest =>
      simp only [checkPlaces, List.append_assoc, hc ty v above, ih, under_bind]
      rfl

theorem checkKey_under (ty : Ty) (key : String) (above path : Path) :
    checkKey checker ty key (above ++ path) = under above (checkKey checker ty key path) := by
  unfold checkKey
  split
  · split
    · rw [hc, under_map]
    · rfl
  · rw [hc, under_map]

theorem checkEntries_under (keyTy valueTy : Ty) (above path : Path) (members done : Entries Json) :
    checkEntries checker keyTy valueTy (above ++ path) members done =
      under above (checkEntries checker keyTy valueTy path members done) := by
  induction members generalizing done with
  | nil => rfl
  | cons e rest ih =>
    obtain ⟨key, v⟩ := e
    simp only [checkEntries, List.append_assoc, checkKey_under hc keyTy key above,
      hc valueTy v above, ih, under_bind]

theorem checkMembers_under (bindings : Ty.Bindings) (object : Entries Json) (above path : Path)
    (fields : List Field) (done : Entries Json) :
    checkMembers checker bindings object (above ++ path) fields done =
      under above (checkMembers checker bindings object path fields done) := by
  induction fields generalizing done with
  | nil => rfl
  | cons f rest ih =>
    unfold checkMembers
    split
    · simp only [List.append_assoc, hc _ _ above, ih, under_bind]
    · split
      · exact ih _
      · split
        · rfl
        · exact ih done

theorem checkFields_under (s : StructDef) (args : List Ty) (v : Json) (above path : Path) :
    checkFields checker s args v (above ++ path) =
      under above (checkFields checker s args v path) := by
  unfold checkFields
  rw [under_bind, under_checkArity]
  refine bind_congr fun _ => ?_
  cases v.members? with
  | none => rfl
  | some object => exact checkMembers_under hc _ object above path s.fields []

theorem checkContainer_items_under (elem : Ty) (v : Json) (above path : Path) :
    checkContainer.items checker v (above ++ path) elem =
      under above (checkContainer.items checker v path elem) := by
  unfold checkContainer.items
  split
  · rfl
  · rw [under_map, checkItems_under hc]

theorem checkContainer_under (kind : ContainerKind) (elems : List Ty) (variadic : Bool) (v : Json)
    (above path : Path) :
    checkContainer checker kind elems variadic v (above ++ path) =
      under above (checkContainer checker kind elems variadic v path) := by
  unfold checkContainer
  split
  · exact checkContainer_items_under hc _ v above path
  · exact checkContainer_items_under hc _ v above path
  · split
    · rfl
    · split
      · rfl
      · rw [under_map, checkPlaces_under hc]
  · split
    · rfl
    · rw [under_map, checkEntries_under hc]
  · rfl

theorem checkDefinition_under (body : Definition) (args : List Ty) (v : Json) (above path : Path) :
    checkDefinition checker body args v (above ++ path) =
      under above (checkDefinition checker body args v path) := by
  cases body with
  | struct s =>
    change (checkFields checker s args v (above ++ path)).map Json.object =
      under above ((checkFields checker s args v path).map Json.object)
    rw [checkFields_under hc, under_map]
  | enumeration e => exact accept_under _ v above path _
  | «alias» a =>
    change (checkArity a.name a.generics args >>= fun _ => checker _ v (above ++ path)) =
      under above (checkArity a.name a.generics args >>= fun _ => checker _ v path)
    rw [under_bind, under_checkArity]
    exact bind_congr fun _ => hc _ v above path

end Parts

/-! ## 3. The check -/

/-- **The check uses the place for its fault only.** -/
theorem check_under (types : TypeTable) (left : Nat) : PlacesFaults (check types left) := by
  induction left with
  | zero => exact fun ty v above path => rfl
  | succ left ih =>
    intro ty v above path
    cases ty with
    | primitive kind => cases kind <;> exact accept_under _ v above path _
    | any => rfl
    | generic name => rfl
    | absent => exact accept_under _ v above path _
    | optional inner =>
      rw [check_optional, check_optional]
      split
      · rfl
      · exact ih inner v above path
    | literals values => exact accept_under _ v above path _
    | union members => exact checkUnion_under ih members v above path
    | container kind elems variadic =>
      exact checkContainer_under ih kind elems variadic v above path
    | named target args =>
      cases hget : types.get target with
      | error fault =>
        rw [check_named_of_error hget, check_named_of_error hget]
        rfl
      | ok body =>
        rw [check_named hget, check_named hget]
        exact checkDefinition_under ih body args v above path

/-- What is taken at one place is taken at every other, and the same is made of it. -/
theorem check_ok_anywhere {types : TypeTable} {left : Nat} {ty : Ty} {v out : Json} {path : Path}
    (h : check types left ty v path = .ok out) (place : Path) :
    check types left ty v place = .ok out := by
  have hroot : ∀ path, check types left ty v path = under path (check types left ty v []) := by
    intro path
    rw [← check_under types left ty v path [], List.append_nil]
  rw [hroot, under_eq_ok_iff] at h ⊢
  exact h

end WireContract.Wire
