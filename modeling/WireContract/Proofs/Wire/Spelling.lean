import WireContract.Proofs.Json.NumberValue
import WireContract.Proofs.Wire.Omission

/-!
# Spellings of a number among constants

A literal or a member of an enumeration is a constant that a value has to be equal to, and numbers
are equal only within one kind. So where a constant is a number, a value that denotes the same
number in the other kind -- `3` and `3.0` -- is refused, although the client's type has one number
for both.

* `IsConstants`: the types that are made of constants, and the constants;
* `Holds`: a number is among the constants, in its own kind;
* `accepts_number_iff`: such a type takes the numbers that its constants hold;
* `spellings_accepted_alike_iff`: when two spellings of one number are accepted alike.
-/

namespace WireContract.Wire

/-- The types that are made of constants: literals, and references to an enumeration. -/
inductive IsConstants (types : TypeTable) : Ty → List Json → Prop where
  | literals (values : List Json) : IsConstants types (.literals values) values
  | enumeration (target : DefId) (args : List Ty) (e : EnumDef)
      (h : types.get target = .ok (.enumeration e)) :
      IsConstants types (.named target args) (e.members.map (·.value))

/-- Whether the constants have the number in its own kind. -/
def Holds (constants : List Json) (n : Json.Number) : Prop :=
  ∃ w, Json.number w ∈ constants ∧ w.isInteger = n.isInteger ∧ w.value = n.value

/-- What equals a number is a number of its kind that denotes the same. -/
theorem eq_number_iff {v : Json} {n : Json.Number} :
    (v == Json.number n) = true ↔
      ∃ w, v = .number w ∧ w.isInteger = n.isInteger ∧ w.value = n.value := by
  cases v with
  | number w =>
    change w.same n = true ↔ _
    rw [Json.Number.same_iff]
    constructor
    · exact fun h => ⟨w, rfl, h⟩
    · rintro ⟨_, heq, h⟩
      cases heq
      exact h
  | _ => exact iff_of_false Bool.false_ne_true (by rintro ⟨_, heq, -⟩; cases heq)

theorem any_eq_number_iff {constants : List Json} {n : Json.Number} :
    (constants.any fun v => v == Json.number n) = true ↔ Holds constants n := by
  rw [List.any_eq_true]
  constructor
  · rintro ⟨v, hv, heq⟩
    obtain ⟨w, rfl, h⟩ := eq_number_iff.mp heq
    exact ⟨w, hv, h⟩
  · rintro ⟨w, hw, h⟩
    exact ⟨_, hw, eq_number_iff.mpr ⟨w, rfl, h⟩⟩

theorem accept_accepted_iff (ok : Bool) (v : Json) (path : Path) (expected : Expected) :
    Accepted (accept ok v path expected) ↔ ok = true := by
  unfold accept
  split
  · rename_i h
    exact iff_of_true ⟨v, rfl⟩ h
  · rename_i h
    exact iff_of_false (not_accepted_error _) h

section Constants

variable {types : TypeTable} {ty : Ty} {constants : List Json}

/-- **A type made of constants takes the numbers that the constants hold**, if the check may look at
    it at all. -/
theorem accepts_number_iff (h : IsConstants types ty constants) (left : Nat) (n : Json.Number)
    (path : Path) :
    Accepted (check types (left + 1) ty (.number n) path) ↔ Holds constants n := by
  rw [← any_eq_number_iff]
  cases h with
  | literals => exact accept_accepted_iff _ _ path _
  | enumeration target args e he =>
    rw [check_named he, List.any_map]
    exact accept_accepted_iff _ _ path _

/-- Numbers of one kind that are one number are held alike. -/
theorem holds_congr {n k : Json.Number} (hkind : n.isInteger = k.isInteger)
    (hvalue : n.value = k.value) : Holds constants n ↔ Holds constants k := by
  unfold Holds
  rw [hkind, hvalue]

/-- **Two spellings of one number are accepted alike exactly if they are of one kind, or the
    constants hold the number in both kinds or in neither**; or if the check does not come to look
    at the value. -/
theorem spellings_accepted_alike_iff (h : IsConstants types ty constants) (level : Nat)
    (path : Path) {n k : Json.Number} (hvalue : n.value = k.value) :
    (Accepted (checkFrom types level ty (.number n) path) ↔
        Accepted (checkFrom types level ty (.number k) path)) ↔
      depthLimit ≤ level ∨ n.isInteger = k.isInteger ∨ (Holds constants n ↔ Holds constants k) := by
  rcases Nat.lt_or_ge level depthLimit with hlevel | hlevel
  · obtain ⟨left, hleft⟩ := Nat.exists_eq_succ_of_ne_zero (Nat.sub_ne_zero_of_lt hlevel)
    rw [checkFrom, hleft, accepts_number_iff h, accepts_number_iff h, or_iff_right (by omega)]
    exact (or_iff_right_of_imp fun hkind => holds_congr hkind hvalue).symm
  · refine iff_of_true ?_ (.inl hlevel)
    rw [checkFrom, Nat.sub_eq_zero_of_le hlevel]
    exact iff_of_false (not_accepted_error _) (not_accepted_error _)

end Constants

/-- The number three as a floating-point number: its bits are the sign zero, the exponent 1024 and
    the first half of the places. -/
def floatThree : Binary64 := ⟨false, 4613937818241073152, by decide +kernel⟩

theorem floatThree_value :
    Json.Number.value (.float floatThree) = Json.Number.value (.integer 3) := by
  have hunits : floatThree.signedUnits = 3 * (Binary64.unitsPerOne : Int) := by decide +kernel
  have hone : (Binary64.unitsPerOne : ℚ) ≠ 0 := Nat.cast_ne_zero.mpr Binary64.unitsPerOne_pos.ne'
  change (floatThree.signedUnits : ℚ) / Binary64.unitsPerOne = ((3 : Int) : ℚ)
  rw [hunits, div_eq_iff hone]
  push_cast
  rfl

theorem spellings_accepted_alike_iff_three :
    Holds [.number (.integer 3), .number (.float floatThree)] (.integer 3) ∧
      (Accepted (checkFrom {} 0 (.literals [.number (.integer 3), .number (.float floatThree)])
          (.number (.integer 3)) []) ↔
        Accepted (checkFrom {} 0 (.literals [.number (.integer 3), .number (.float floatThree)])
          (.number (.float floatThree)) [])) := by
  have hinteger : Holds [.number (.integer 3), .number (.float floatThree)] (.integer 3) :=
    ⟨_, List.mem_cons_self, rfl, rfl⟩
  have hfloat : Holds [.number (.integer 3), .number (.float floatThree)] (.float floatThree) :=
    ⟨_, List.mem_cons_of_mem _ List.mem_cons_self, rfl, rfl⟩
  refine ⟨hinteger, ?_⟩
  exact (spellings_accepted_alike_iff (.literals _) 0 [] floatThree_value.symm).mpr
    (.inr (.inr (iff_of_true hinteger hfloat)))

/-- **Two spellings of one number are not always accepted alike**: the literal `3` takes the value
    `3` and refuses the value `3.0`. -/
theorem spelling_decides_acceptance :
    ¬ ∀ (types : TypeTable) (ty : Ty) (constants : List Json) (level : Nat) (path : Path)
        (n k : Json.Number), IsConstants types ty constants → n.value = k.value →
      (Accepted (checkFrom types level ty (.number n) path) ↔
        Accepted (checkFrom types level ty (.number k) path)) := by
  intro h
  have htaken : Accepted (checkFrom {} 0 (.literals [.number (.integer 3)])
      (.number (.integer 3)) []) := ⟨_, rfl⟩
  have hrefused : ¬ Accepted (checkFrom {} 0 (.literals [.number (.integer 3)])
      (.number (.float floatThree)) []) := not_accepted_error (.mismatch [] (.oneOf _))
  exact hrefused ((h {} _ _ 0 [] _ _ (.literals _) floatThree_value.symm).mp htaken)

end WireContract.Wire
