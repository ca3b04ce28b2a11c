import WireContract.Proofs.Wire.Levels

/-!
# The limit on levels is only a cutoff

A check that starts on a deeper level has fewer levels left. It may then come to its last one, and
this is the only difference that it makes: a check that does not end there has looked at nothing
differently. In a union the last level ends the search, so that no other member takes the value
because the levels were not enough for one in front of it.

* `takerOf`: the member that a union takes a value with;
* `takerOf_of_cuts`: fewer levels do not change it, unless the union's check comes to the last one;
* `levels_only_cut`: nor do they change anything else.
-/

namespace WireContract.Wire

/-! ## 1. The member that is taken -/

/-- The number of the member that a union takes a value with; there is none if the search ends at a
    fault or behind the last member. -/
def takerOf (checker : Checker) (v : Json) (path : Path) : List Ty → Option Nat
  | [] => none
  | ty :: rest =>
    match checker ty v path with
    | .ok _ => some 0
    | .error fault =>
      if fault.isMismatch then (takerOf checker v path rest).map (· + 1) else none

/-- A union accepts a value exactly if there is such a member, and makes of it what the member
    does. -/
theorem checkUnion_accepted_iff {checker : Checker} {members : List Ty} {v : Json} {path : Path} :
    Accepted (checkUnion checker members v path) ↔
      ∃ n member, takerOf checker v path members = some n ∧ members[n]? = some member ∧
        checkUnion checker members v path = checker member v path := by
  induction members with
  | nil => simp [Accepted, checkUnion, takerOf]
  | cons ty rest ih =>
    rw [checkUnion_cons, takerOf]
    cases hty : checker ty v path with
    | ok out => exact iff_of_true ⟨out, rfl⟩ ⟨0, ty, rfl, rfl, hty.symm⟩
    | error fault =>
      by_cases hm : fault.isMismatch = true
      · rw [orNext_of_isMismatch hm, ih]
        simp [hm]
      · rw [orNext_of_not_isMismatch hm]
        simp [hm, not_accepted_error]

/-- **With fewer levels the same member is taken**, unless the last level is come to. -/
theorem takerOf_of_cuts {c c' : Checker} {members : List Ty} {v : Json} {path : Path}
    (h : ∀ member ∈ members, Cuts (c member v path) (c' member v path))
    (hends : ¬ EndsTooDeep (checkUnion c members v path)) :
    takerOf c' v path members = takerOf c v path members := by
  induction members with
  | nil => rfl
  | cons ty rest ih =>
    rw [List.forall_mem_cons] at h
    rw [checkUnion_cons] at hends
    have hty : ¬ EndsTooDeep (c ty v path) := by
      rintro ⟨place, hplace⟩
      rw [hplace] at hends
      exact hends ⟨place, rfl⟩
    rw [takerOf, takerOf, h.1.eq_of_not_endsTooDeep hty]
    cases hout : c ty v path with
    | ok out => rfl
    | error fault =>
      by_cases hm : fault.isMismatch = true
      · rw [hout, orNext_of_isMismatch hm] at hends
        simp only [ih h.2 hends]
      · simp only [if_neg hm]

/-! ## 2. The check -/

/-- The members of a union are checked one level deeper. -/
theorem checkFrom_union {level : Nat} (h : level < depthLimit) (types : TypeTable)
    (members : List Ty) (v : Json) (path : Path) :
    checkFrom types level (.union members) v path =
      checkUnion (checkFrom types (level + 1)) members v path := by
  obtain ⟨left, hleft⟩ := Nat.exists_eq_succ_of_ne_zero (Nat.sub_ne_zero_of_lt h)
  have hnext : depthLimit - (level + 1) = left := by omega
  simp only [checkFrom, hleft, hnext]
  rfl

theorem checkFrom_cuts (types : TypeTable) {level level' : Nat} (h : level' ≤ level) (ty : Ty) :
    InStep (fun _ => Cuts) (checkFrom types level) (checkFrom types level') ty ty := by
  obtain ⟨more, hmore⟩ : ∃ more, depthLimit - level' = depthLimit - level + more :=
    ⟨_, (Nat.add_sub_cancel' (Nat.sub_le_sub_left h depthLimit)).symm⟩
  rw [checkFrom, checkFrom, hmore]
  exact check_cuts types _ more ty

/-- **The limit on levels is only a cutoff.** A check that does not end at its last level has the
    same outcome from every level above the one it starts on: the same value, or the same fault at
    the same place. And where the type is a union, the same member is the one that takes the value,
    if there is one. -/
theorem levels_only_cut {types : TypeTable} {ty : Ty} {v : Json} {path : Path} {level level' : Nat}
    (hle : level' ≤ level) (hends : ¬ EndsTooDeep (checkFrom types level ty v path)) :
    checkFrom types level' ty v path = checkFrom types level ty v path ∧
      ∀ members, ty = .union members →
        takerOf (checkFrom types (level' + 1)) v path members =
          takerOf (checkFrom types (level + 1)) v path members := by
  refine ⟨(checkFrom_cuts types hle ty v path).eq_of_not_endsTooDeep hends, ?_⟩
  rintro members rfl
  have hlevel : level < depthLimit := by
    by_contra hlevel
    refine hends ⟨path, ?_⟩
    rw [checkFrom, Nat.sub_eq_zero_of_le (Nat.le_of_not_lt hlevel)]
    rfl
  rw [checkFrom_union hlevel] at hends
  have hmembers : ∀ member ∈ members, Cuts (checkFrom types (level + 1) member v path)
      (checkFrom types (level' + 1) member v path) :=
    fun member _ => checkFrom_cuts types (Nat.succ_le_succ hle) member v path
  exact takerOf_of_cuts hmembers hends

/-- A text, or a number that may be missing. -/
def remark : List Ty := [.string, .optional .number]

/-- On level 125 the number is looked at on the last level there is; one level deeper the check
    ends before. -/
theorem levels_only_cut_remark :
    ¬ EndsTooDeep (checkFrom {} 125 (.union remark) (.number (.integer 3)) []) ∧
      checkFrom {} 0 (.union remark) (.number (.integer 3)) [] = .ok (.number (.integer 3)) ∧
      takerOf (checkFrom {} 1) (.number (.integer 3)) [] remark = some 1 ∧
      EndsTooDeep (checkFrom {} 126 (.union remark) (.number (.integer 3)) []) := by
  have hends : ¬ EndsTooDeep (checkFrom {} 125 (.union remark) (.number (.integer 3)) []) := by
    rintro ⟨place, hplace⟩
    cases hplace
  obtain ⟨hsame, htaker⟩ := levels_only_cut (Nat.zero_le 125) hends
  exact ⟨hends, hsame.trans rfl, (htaker remark rfl).trans rfl, [], rfl⟩

end WireContract.Wire
