import WireContract.Service.RateLimit

/-!
# Locks over time

A table of locks is purged as a whole at every call, and a call that is let through adds one lock.
As long as the clock does not run backwards, purging changes no later answer, so what one call does
to the table can be said lock by lock.

* `Bars`: a caller is held back from a method at a time;
* `limits_iff`: a call is held back exactly if its own lock holds;
* `bars_limits_iff`: what a call leaves for any caller, method and later time.
-/

namespace WireContract.Service.Locks

/-- Whether a lock holds a caller back from a method at a time. -/
def Bars (locks : Locks) (caller method : String) (time : Nat) : Prop :=
  ∃ l ∈ locks, l.caller = caller ∧ l.method = method ∧ time < l.expiry

variable {locks : Locks} {now time window : Nat} {caller method other target : String}

theorem not_bars_nil : ¬ Bars [] caller method time :=
  fun ⟨_, hl, _⟩ => List.not_mem_nil hl

theorem bars_cons_iff {l : Lock} :
    Bars (l :: locks) caller method time ↔
      (l.caller = caller ∧ l.method = method ∧ time < l.expiry) ∨
        locks.Bars caller method time := by
  simp [Bars]

theorem holds_current_iff :
    (locks.current now).holds caller method = true ↔ locks.Bars caller method now := by
  simp only [holds, current, Bars, List.any_eq_true, List.mem_filter, decide_eq_true_eq,
    Bool.and_eq_true, beq_iff_eq]
  grind

/-- What is purged held nobody back any more. -/
theorem bars_current_iff (h : now ≤ time) :
    (locks.current now).Bars caller method time ↔ locks.Bars caller method time := by
  constructor
  · rintro ⟨l, hl, hkey⟩
    exact ⟨l, (List.mem_filter.mp hl).1, hkey⟩
  · rintro ⟨l, hl, hcaller, hmethod, hexpiry⟩
    have hkept : now < l.expiry := Nat.lt_of_le_of_lt h hexpiry
    exact ⟨l, List.mem_filter.mpr ⟨hl, decide_eq_true hkept⟩, hcaller, hmethod, hexpiry⟩

/-- **A call is held back exactly if its own lock holds.** -/
theorem limits_iff :
    (locks.limits now caller method window).1 = true ↔ locks.Bars caller method now := by
  rw [← holds_current_iff, limits]
  split <;> simp_all

/-- **What a call leaves**: every lock that was there, and one more if it was let through. -/
theorem bars_limits_iff (h : now ≤ time) :
    (locks.limits now caller method window).2.Bars other target time ↔
      locks.Bars other target time ∨
        ((caller = other ∧ method = target) ∧ ¬ locks.Bars caller method now ∧
          time < now + window * ticksPerSecond) := by
  rw [limits]
  split
  · rename_i hheld
    have hbars : locks.Bars caller method now := holds_current_iff.mp hheld
    rw [bars_current_iff h]
    exact ⟨Or.inl, fun hor => hor.resolve_right fun hnew => hnew.2.1 hbars⟩
  · rename_i hfree
    have hbars : ¬ locks.Bars caller method now := fun h => hfree (holds_current_iff.mpr h)
    rw [bars_cons_iff, bars_current_iff h, or_comm, and_iff_right hbars, and_assoc]

end WireContract.Service.Locks
