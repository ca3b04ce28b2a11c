import Mathlib.Order.Monotone.Basic
import Mathlib.Data.Rat.Cast.Defs
import WireContract.Json.Basic

/-!
# The number that a JSON number denotes

A JSON number is an integer or a binary floating-point number, and either denotes one rational
number exactly. Floating-point numbers denote one number only if they are equal, since magnitudes
are numbered in the order of their values; an integer and a floating-point number may denote one
number and are never equal.

* `Binary64.units_lt_succ`, `units_injective`: a greater magnitude has a greater value;
* `Binary64.value`, `Json.Number.value`: the number that is denoted;
* `Json.Number.same_iff`: equal numbers are those of one kind that denote one number.
-/

namespace WireContract

namespace Binary64

/-! ## 1. Magnitudes -/

theorem two_pow_pos (n : Nat) : 0 < Nat.pow 2 n := Nat.pow_pos Nat.two_pos

theorem magnitudesPerExponent_pos : 0 < magnitudesPerExponent := two_pow_pos 52

/-- The value of a magnitude, by the exponent and the place among the magnitudes of it. -/
theorem units_eq (exponent : Nat) {place : Nat} (h : place < magnitudesPerExponent) :
    units (magnitudesPerExponent * exponent + place) =
      if exponent = 0 then place
      else (place + magnitudesPerExponent) * Nat.pow 2 (exponent - 1) := by
  have hpos := magnitudesPerExponent_pos
  have hdiv : (magnitudesPerExponent * exponent + place) / magnitudesPerExponent = exponent := by
    rw [Nat.mul_add_div hpos, Nat.div_eq_of_lt h, Nat.add_zero]
  have hmod : (magnitudesPerExponent * exponent + place) % magnitudesPerExponent = place := by
    rw [Nat.mul_add_mod, Nat.mod_eq_of_lt h]
  have hsmall : magnitudesPerExponent * exponent + place < magnitudesPerExponent ↔
      exponent = 0 := by
    rw [← Nat.div_lt_one_iff hpos, hdiv, Nat.lt_one_iff]
  rw [units, scale, significand, hdiv, hmod]
  by_cases hexponent : exponent = 0
  · subst hexponent
    simp [h]
  · rw [if_neg (hexponent ∘ hsmall.mp), if_neg hexponent]

/-- The next magnitude has a greater value, also where the next exponent begins. -/
theorem units_lt_succ (magnitude : Nat) : units magnitude < units (magnitude + 1) := by
  have hpos := magnitudesPerExponent_pos
  obtain ⟨exponent, place, hplace, rfl⟩ : ∃ exponent place, place < magnitudesPerExponent ∧
      magnitude = magnitudesPerExponent * exponent + place :=
    ⟨_, _, Nat.mod_lt magnitude hpos, (Nat.div_add_mod magnitude _).symm⟩
  rw [units_eq exponent hplace]
  by_cases hlast : place + 1 < magnitudesPerExponent
  · rw [Nat.add_assoc, units_eq exponent hlast]
    split
    · exact Nat.lt_succ_self place
    · exact Nat.mul_lt_mul_of_pos_right (by omega) (two_pow_pos _)
  · have hnext : magnitudesPerExponent * exponent + place + 1 =
        magnitudesPerExponent * (exponent + 1) + 0 := by
      rw [Nat.mul_add]
      omega
    rw [hnext, units_eq (exponent + 1) hpos, if_neg (Nat.succ_ne_zero exponent)]
    split
    · rename_i hzero
      subst hzero
      simpa using hplace
    · rename_i hnonzero
      obtain ⟨below, rfl⟩ := Nat.exists_eq_succ_of_ne_zero hnonzero
      have hdouble : Nat.pow 2 (below + 1) = Nat.pow 2 below * 2 := rfl
      simp only [Nat.succ_eq_add_one, Nat.add_sub_cancel, Nat.zero_add, hdouble]
      rw [Nat.mul_comm (Nat.pow 2 below) 2, ← Nat.mul_assoc]
      exact Nat.mul_lt_mul_of_pos_right (by omega) (two_pow_pos _)

theorem units_injective : Function.Injective units :=
  (strictMono_nat_of_lt_succ units_lt_succ).injective

theorem units_eq_zero_iff {magnitude : Nat} : units magnitude = 0 ↔ magnitude = 0 :=
  ⟨fun h => units_injective (h.trans rfl), fun h => by rw [h]; rfl⟩

/-! ## 2. Numbers -/

/-- The value in units, with its sign. -/
def signedUnits (x : Binary64) : Int :=
  if x.negative then -(units x.magnitude) else units x.magnitude

/-- **Floating-point numbers are equal exactly if they have one value**: the two zeros are. -/
theorem sameValue_iff {x y : Binary64} :
    x.sameValue y = true ↔ x.signedUnits = y.signedUnits := by
  have hunits : x.magnitude = y.magnitude ↔ units x.magnitude = units y.magnitude :=
    units_injective.eq_iff.symm
  have hzero : units x.magnitude = 0 ↔ x.magnitude = 0 := units_eq_zero_iff
  simp only [sameValue, Bool.and_eq_true, Bool.or_eq_true, beq_iff_eq, signedUnits]
  rw [hunits, ← hzero]
  cases x.negative <;> cases y.negative <;> simp <;> omega

theorem unitsPerOne_pos : 0 < unitsPerOne := by
  unfold unitsPerOne
  generalize 1074 = exponent
  exact two_pow_pos exponent

/-- The number that a floating-point number denotes. -/
def value (x : Binary64) : ℚ := x.signedUnits / unitsPerOne

end Binary64

namespace Json.Number

/-- Whether the number is an integer by its kind. -/
def isInteger : Json.Number → Bool
  | .integer _ => true
  | .float _ => false

/-- The number that is denoted, exactly. -/
def value : Json.Number → ℚ
  | .integer n => n
  | .float x => x.value

/-- **Equal numbers are those of one kind that denote one number.** -/
theorem same_iff {n k : Json.Number} :
    n.same k = true ↔ n.isInteger = k.isInteger ∧ n.value = k.value := by
  have hone : (Binary64.unitsPerOne : ℚ) ≠ 0 := Nat.cast_ne_zero.mpr Binary64.unitsPerOne_pos.ne'
  cases n with
  | integer i =>
    cases k with
    | integer j =>
      change (i == j) = true ↔ true = true ∧ (i : ℚ) = j
      rw [beq_iff_eq, Int.cast_inj, and_iff_right rfl]
    | float y => exact iff_of_false Bool.false_ne_true fun h => nomatch h.1
  | float x =>
    cases k with
    | integer j => exact iff_of_false Bool.false_ne_true fun h => nomatch h.1
    | float y =>
      change x.sameValue y = true ↔ false = false ∧ x.value = y.value
      rw [Binary64.sameValue_iff, and_iff_right rfl, Binary64.value, Binary64.value,
        div_left_inj' hone, Int.cast_inj]

end Json.Number

end WireContract
