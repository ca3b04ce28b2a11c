import WireContract.Proofs.Wire.Levels

/-!
# Types that say that they may be missing

The shape of a field looks at the outermost constructor of its type: an option and a union with
absence are taken apart, and what is there is checked against the rest. As the type of a result, or
behind a name, such a type is checked as a whole, and with the levels that this takes. The two
differ for null alone, which the whole type takes and the rest perhaps not.

* `Ty.isOmissible`: the types that the shape takes apart;
* `checkUnion_present_deepens`, `checkUnion_present_affirms`: a union and what is left of it
  without absence;
* `check_split_deepens`, `check_split_affirms`: the whole type and the rest, with arguments in both;
* `splitting_only_removes_absence`: the same, outcome by outcome, for every level to start on.
-/

namespace WireContract

/-! ## 1. Shapes -/

/-- Whether a type says by itself that a field of it may be left out. -/
def Ty.isOmissible : Ty → Bool
  | .optional _ => true
  | .union members => members.any isAbsent
  | _ => false

/-- Any other type is left as it is. -/
theorem Field.shape_of_not_omissible {f : Field} (h : f.ty.isOmissible = false) :
    f.shape = (f.ty, f.optional || f.default.isSome) := by
  unfold shape
  split
  · rename_i inner hty
    rw [hty] at h
    cases h
  · rename_i members hty
    rw [hty] at h
    rw [if_neg (by simpa [Ty.isOmissible] using h), hty]
  · rfl

theorem Field.shape_of_optional {f : Field} {inner : Ty} (h : f.ty = .optional inner) :
    f.shape.1 = inner := by
  rw [shape, h]

theorem Field.shape_of_union {f : Field} {members : List Ty} (h : f.ty = .union members)
    (habsent : members.any Ty.isAbsent = true) :
    f.shape.1 = Ty.unionOf (Ty.present members) := by
  rw [shape, h]
  exact congrArg Prod.fst (if_pos habsent)

/-- What is left of a union is taken apart before or after the arguments come in. -/
theorem Ty.substitute_unionOf (b : Bindings) (tys : List Ty) :
    (unionOf tys).substitute b = unionOf (tys.map (substitute b)) := by
  rcases tys with _ | ⟨first, _ | ⟨second, rest⟩⟩
  · rfl
  · rfl
  · exact substitute_union b (first :: second :: rest)

namespace Wire

/-! ## 2. Unions -/

section Unions

variable {c c' : Checker} {members : List Ty} {v : Json} {path : Path}

theorem checkUnion_map (c : Checker) (g : Ty → Ty) (members : List Ty) (v : Json) (path : Path) :
    checkUnion c (members.map g) v path = checkUnion (fun ty => c (g ty)) members v path := by
  induction members with
  | nil => rfl
  | cons member rest ih => rw [List.map_cons, checkUnion_cons, checkUnion_cons, ih]

/-- A value that is not null is taken by a union exactly if it is taken by what is left of it
    without absence. -/
theorem checkUnion_present_deepens
    (habsent : Deepens (c .absent v path) (.error (.mismatch path .absence)))
    (h : ∀ member ∈ members, Deepens (c member v path) (c' member v path)) :
    Deepens (checkUnion c members v path) (checkUnion c' (Ty.present members) v path) := by
  induction members with
  | nil => exact .same _
  | cons member rest ih =>
    rw [List.forall_mem_cons] at h
    rw [checkUnion_cons]
    by_cases hmember : member.isAbsent = true
    · obtain rfl : member = .absent := by cases member <;> first | rfl | cases hmember
      exact habsent.next (ih h.2)
    · have hpresent : Ty.present (member :: rest) = member :: Ty.present rest :=
        List.filter_cons_of_pos (by simpa using hmember)
      rw [hpresent, checkUnion_cons]
      exact h.1.next (ih h.2)

/-- What is taken by what is left of a union is taken by the whole, as far as the levels go. -/
theorem checkUnion_present_affirms (habsent : Affirms (c .absent v path))
    (h : ∀ member ∈ members, Deepens (c member v path) (c' member v path))
    (hok : Accepted (checkUnion c' (Ty.present members) v path)) :
    Affirms (checkUnion c members v path) := by
  induction members with
  | nil => exact absurd hok (not_accepted_error _)
  | cons member rest ih =>
    rw [List.forall_mem_cons] at h
    rw [checkUnion_cons]
    by_cases hmember : member.isAbsent = true
    · obtain rfl : member = .absent := by cases member <;> first | rfl | cases hmember
      exact habsent.orNext _
    · have hpresent : Ty.present (member :: rest) = member :: Ty.present rest :=
        List.filter_cons_of_pos (by simpa using hmember)
      rw [hpresent, checkUnion_cons] at hok
      exact h.1.affirms_orNext (ih h.2) hok

end Unions

/-! ## 3. The check -/

section Check

variable {types : TypeTable}

theorem check_absent_of_not_null (left : Nat) {v : Json} (hv : v.isNull = false) (path : Path) :
    check types (left + 1) .absent v path = .error (.mismatch path .absence) :=
  if_neg (by rw [hv]; exact Bool.false_ne_true)

/-- A value that is not null is not absent, with however few levels left. -/
theorem check_absent_deepens (left : Nat) {v : Json} (hv : v.isNull = false) (path : Path) :
    Deepens (check types left .absent v path) (.error (.mismatch path .absence)) := by
  cases left with
  | zero => exact .tooDeep path _
  | succ left =>
    rw [check_absent_of_not_null left hv]
    exact .same _

theorem check_absent_affirms (left : Nat) (path : Path) :
    Affirms (check types left .absent .null path) := by
  cases left with
  | zero => exact .inr ⟨path, rfl⟩
  | succ left => exact .inl ⟨.null, rfl⟩

/-- The members that are left of a union are checked on the level on which they were, and a single
    one, which stands for itself, on the one above. -/
theorem check_unionOf_deepens (left more : Nat) (b : Ty.Bindings) {members : List Ty} {v : Json}
    (hv : v.isNull = false) (path : Path) :
    Deepens (check types (left + 1) (.union (members.map (Ty.substitute b))) v path)
      (check types (left + 1 + more) ((Ty.unionOf (Ty.present members)).substitute b) v path) := by
  have hmembers : ∀ more, Deepens
      (checkUnion (check types left) (members.map (Ty.substitute b)) v path)
      (checkUnion (check types (left + more)) ((Ty.present members).map (Ty.substitute b)) v
        path) := fun more => by
    rw [checkUnion_map, checkUnion_map]
    exact checkUnion_present_deepens (check_absent_deepens left hv path) fun member _ =>
      check_deepens types left more (member.substitute b) v path
  change Deepens (checkUnion (check types left) (members.map (Ty.substitute b)) v path) _
  rcases hpresent : Ty.present members with _ | ⟨first, _ | ⟨second, rest⟩⟩
  · have hnone := hmembers (1 + more)
    rw [hpresent] at hnone
    change Deepens _ (check types (left + 1 + more) .absent v path)
    rw [Nat.add_right_comm, check_absent_of_not_null (left + more) hv]
    exact hnone.trans (.refused _ _ rfl rfl)
  · have hsingle := hmembers (1 + more)
    rw [hpresent, List.map_singleton, checkUnion_cons, ← Nat.add_assoc] at hsingle
    exact hsingle.trans (.orNext_refused _ rfl)
  · have hseveral := hmembers more
    rw [hpresent] at hseveral
    rw [Ty.substitute_unionOf, Nat.add_right_comm]
    exact hseveral

/-- **A type and the rest that the shape leaves of it** take the same values, but for null. -/
theorem check_split_deepens (left more : Nat) {f : Field} (b : Ty.Bindings) {v : Json}
    (hv : f.ty.isOmissible = true → v.isNull = false) (path : Path) :
    Deepens (check types left (f.ty.substitute b) v path)
      (check types (left + more) (f.shape.1.substitute b) v path) := by
  cases left with
  | zero => exact .tooDeep path _
  | succ left =>
    by_cases hf : f.ty.isOmissible = true
    · have hnull := hv hf
      cases hty : f.ty with
      | optional inner =>
        change Deepens (check types (left + 1) (.optional (inner.substitute b)) v path) _
        rw [check_optional, if_neg (by rw [hnull]; exact Bool.false_ne_true),
          Field.shape_of_optional hty, Nat.add_assoc]
        exact check_deepens types left (1 + more) (inner.substitute b) v path
      | union members =>
        rw [hty] at hf
        rw [Ty.substitute_union, Field.shape_of_union hty hf]
        exact check_unionOf_deepens left more b hnull path
      | _ =>
        rw [hty] at hf
        cases hf
    · rw [Field.shape_of_not_omissible (by simpa using hf)]
      exact check_deepens types (left + 1) more (f.ty.substitute b) v path

/-- Null that is taken by what is left of a union is taken by the union. -/
theorem check_unionOf_affirms (left more : Nat) (b : Ty.Bindings) {members : List Ty}
    (habsent : members.any Ty.isAbsent = true) {path : Path}
    (hok : Accepted (check types (left + 1 + more)
      ((Ty.unionOf (Ty.present members)).substitute b) .null path)) :
    Affirms (check types (left + 1) (.union (members.map (Ty.substitute b))) .null path) := by
  have hmembers : ∀ more,
      Accepted (checkUnion (check types (left + more)) ((Ty.present members).map (Ty.substitute b))
        .null path) →
        Affirms (checkUnion (check types left) (members.map (Ty.substitute b)) .null path) :=
      fun more hmore => by
    rw [checkUnion_map] at hmore ⊢
    exact checkUnion_present_affirms (check_absent_affirms left path)
      (fun member _ => check_deepens types left more (member.substitute b) .null path) hmore
  change Affirms (checkUnion (check types left) (members.map (Ty.substitute b)) .null path)
  rcases hpresent : Ty.present members with _ | ⟨first, _ | ⟨second, rest⟩⟩
  · -- nothing but absence is there, and the first member takes null
    rcases members with _ | ⟨first, rest⟩
    · cases habsent
    · have hfirst : first.isAbsent = true := by
        by_contra hfirst
        rw [Ty.present, List.filter_cons_of_pos (by simpa using hfirst)] at hpresent
        cases hpresent
      obtain rfl : first = .absent := by cases first <;> first | rfl | cases hfirst
      rw [List.map_cons, checkUnion_cons]
      exact (check_absent_affirms left path).orNext _
  · refine hmembers (1 + more) ?_
    rw [hpresent] at hok ⊢
    obtain ⟨out, hout⟩ : Accepted (check types (left + 1 + more) (first.substitute b) .null path) :=
      hok
    rw [List.map_singleton, checkUnion_cons, ← Nat.add_assoc, hout]
    exact ⟨out, rfl⟩
  · refine hmembers more ?_
    rw [hpresent, Ty.substitute_unionOf, Nat.add_right_comm] at hok
    rw [hpresent]
    exact hok

/-- **Null that is taken by the rest is taken by the whole type**, as far as the levels go. -/
theorem check_split_affirms (left more : Nat) {f : Field} (b : Ty.Bindings)
    (hf : f.ty.isOmissible = true) {path : Path}
    (hok : Accepted (check types (left + more) (f.shape.1.substitute b) .null path)) :
    Affirms (check types left (f.ty.substitute b) .null path) := by
  cases left with
  | zero => exact .inr ⟨path, rfl⟩
  | succ left =>
    cases hty : f.ty with
    | optional inner => exact .inl ⟨.null, rfl⟩
    | union members =>
      rw [hty] at hf
      rw [Field.shape_of_union hty hf] at hok
      rw [Ty.substitute_union]
      exact check_unionOf_affirms left more b hf hok
    | _ =>
      rw [hty] at hf
      cases hf

theorem check_shape_deepens (left : Nat) {f : Field} {v : Json}
    (hv : f.ty.isOmissible = true → v.isNull = false) (path : Path) :
    Deepens (check types left f.ty v path) (check types (left + 1) f.shape.1 v path) := by
  have h : Deepens (check types left (f.ty.substitute []) v path)
      (check types (left + 1) (f.shape.1.substitute []) v path) :=
    check_split_deepens left 1 [] hv path
  rwa [Ty.substitute_nil, Ty.substitute_nil] at h

theorem check_shape_affirms (left : Nat) {f : Field} (hf : f.ty.isOmissible = true) {path : Path}
    (hok : Accepted (check types (left + 1) f.shape.1 .null path)) :
    Affirms (check types left f.ty .null path) := by
  rw [← Ty.substitute_nil f.shape.1] at hok
  have h := check_split_affirms left 1 [] hf hok
  rwa [Ty.substitute_nil] at h

end Check

/-! ## 4. A field -/

/-- Two outcomes of which the first comes to an end above the last level: both are the same value,
    both refuse, or both find the same fault in the types. -/
theorem Deepens.verdicts {α : Type} {x y : Except Fault α} {p : Prop} (h : Deepens x y)
    (hsettles : Settles x p) (hends : ¬ EndsTooDeep x) :
    (∃ out, y = .ok out ∧ x = .ok out) ∨
      (∃ fault other, y = .error fault ∧ x = .error other ∧ fault.isMismatch = true ∧
        other.isMismatch = true) ∨
      ∃ reason, y = .error (.schema reason) ∧ x = .error (.schema reason) := by
  cases h with
  | same =>
    cases x with
    | ok out => exact .inl ⟨out, rfl, rfl⟩
    | error fault =>
      cases fault with
      | mismatch => exact .inr (.inl ⟨_, _, rfl, rfl, rfl, rfl⟩)
      | missing => exact .inr (.inl ⟨_, _, rfl, rfl, rfl, rfl⟩)
      | schema reason => exact .inr (.inr ⟨reason, rfl, rfl⟩)
      | tooDeep path => exact absurd ⟨path, rfl⟩ hends
      | notJson => exact hsettles.elim
  | refused fault other hm ho => exact .inr (.inl ⟨other, fault, rfl, rfl, ho, hm⟩)
  | tooDeep path => exact absurd ⟨path, rfl⟩ hends

/-- **Taking the type of a field apart takes nothing from it but absence.** The declared type, with
    arguments in it, goes down further than what the shape leaves of it, with the same arguments. As
    long as this does not take it to its last level, both make the same of a value that is not null,
    both refuse it, or both find the same fault in the types; and if null is taken by what is left,
    it is taken by the declared type. -/
theorem splitting_only_removes_absence (types : TypeTable) (f : Field) (b : Ty.Bindings)
    (level : Nat) (v : Json) (path : Path)
    (hends : ¬ EndsTooDeep (checkFrom types level (f.ty.substitute b) v path)) :
    (v.isNull = false →
      (∃ out, checkFrom types level (f.shape.1.substitute b) v path = .ok out ∧
        checkFrom types level (f.ty.substitute b) v path = .ok out) ∨
      (∃ fault other, checkFrom types level (f.shape.1.substitute b) v path = .error fault ∧
        checkFrom types level (f.ty.substitute b) v path = .error other ∧
        fault.isMismatch = true ∧ other.isMismatch = true) ∨
      ∃ reason, checkFrom types level (f.shape.1.substitute b) v path = .error (.schema reason) ∧
        checkFrom types level (f.ty.substitute b) v path = .error (.schema reason)) ∧
    (v.isNull = true → Accepted (checkFrom types level (f.shape.1.substitute b) v path) →
      Accepted (checkFrom types level (f.ty.substitute b) v path)) := by
  constructor
  · intro hv
    have hdeepens : Deepens (checkFrom types level (f.ty.substitute b) v path)
        (checkFrom types level (f.shape.1.substitute b) v path) :=
      check_split_deepens (depthLimit - level) 0 b (fun _ => hv) path
    exact hdeepens.verdicts (check_settles types _ _ v path) hends
  · intro hv hok
    by_cases hf : f.ty.isOmissible = true
    · obtain rfl : v = .null := by cases v <;> first | rfl | cases hv
      have haffirms : Affirms (checkFrom types level (f.ty.substitute b) .null path) :=
        check_split_affirms (depthLimit - level) 0 b hf hok
      exact haffirms.resolve_right hends
    · rwa [Field.shape_of_not_omissible (by simpa using hf)] at hok

-- Null on the last level: the declared type does not come to its members, and what the shape leaves
-- of it is a member.
example :
    checkFrom {} (depthLimit - 1) (.union [.null, .absent]) .null [] = .error (.tooDeep []) ∧
      checkFrom {} (depthLimit - 1)
        ({ name := "note", ty := .union [.null, .absent] } : Field).shape.1 .null [] =
          .ok .null := ⟨rfl, rfl⟩

/-- A field that says twice that it may be left out, and is something given or a text. -/
def note : Field :=
  { name := "note", ty := .union [.absent, .generic "T", .absent, .string] }

/-- What is given is a number, or nothing. -/
def given : Ty.Bindings := Ty.bind ["T"] [.optional .number]

/-- A number is taken with and without absence, a truth value neither way, and null both ways. -/
theorem note_splits :
    (∃ out, checkFrom {} 3 (note.shape.1.substitute given) (.number (.integer 7)) [] = .ok out ∧
      checkFrom {} 3 (note.ty.substitute given) (.number (.integer 7)) [] = .ok out) ∧
    (∃ fault other,
      checkFrom {} 3 (note.shape.1.substitute given) (.bool true) [] = .error fault ∧
      checkFrom {} 3 (note.ty.substitute given) (.bool true) [] = .error other ∧
      fault.isMismatch = true ∧ other.isMismatch = true) ∧
    Accepted (checkFrom {} 3 (note.ty.substitute given) .null []) := by
  have hnumber : checkFrom {} 3 (note.shape.1.substitute given) (.number (.integer 7)) [] =
      .ok (.number (.integer 7)) := rfl
  have hbool : checkFrom {} 3 (note.shape.1.substitute given) (.bool true) [] =
      .error (.mismatch [] .unionMember) := rfl
  refine ⟨?_, ?_, ?_⟩
  · rcases (splitting_only_removes_absence {} note given 3 (.number (.integer 7)) []
      (by rintro ⟨path, h⟩; cases h)).1 rfl with h | ⟨fault, other, h, -⟩ | ⟨reason, h, -⟩
    · exact h
    · cases hnumber.symm.trans h
    · cases hnumber.symm.trans h
  · rcases (splitting_only_removes_absence {} note given 3 (.bool true) []
      (by rintro ⟨path, h⟩; cases h)).1 rfl with ⟨out, h, -⟩ | h | ⟨reason, h, -⟩
    · cases hbool.symm.trans h
    · exact h
    · cases hbool.symm.trans h
  · exact (splitting_only_removes_absence {} note given 3 .null []
      (by rintro ⟨path, h⟩; cases h)).2 rfl ⟨.null, rfl⟩

end Wire

end WireContract
