import Mathlib.Data.List.Basic
import WireContract.Type.Basic

/-!
# Waves of discovery

What is found from a list of definitions by following mentions, breadth first: wave 0 is the list
itself, and every further wave is what the wave before it mentions and no earlier wave has. Nothing
here knows how the text of a definition is written; the worklist is shown to hand out the waves
elsewhere.

* `wave`, `wavesBefore`: one wave, and all waves in front of it;
* `nodup_wavesBefore`: nothing is found twice;
* `mem_wavesBefore_of_next`: what is found leads to nothing that is not found one wave later;
* `exists_mem_wave_iff`: what is found is the least set that has the start and is closed under
  mentioning (`Reached`);
* `wave_eq_nil_of_lt`: with numbers below a bound there are no more waves than the bound;
* `wave_map`: under other numbers the waves are the same.
-/

namespace WireContract.Bindings

/-! ## 1. Lists without repetition -/

/-- Induction along `eraseDups`: behind the first element, what is not equal to it. -/
@[elab_as_elim]
theorem eraseDups_induction {motive : List DefId → Prop} (nil : motive [])
    (cons : ∀ id rest, motive (rest.filter fun b => !b == id) → motive (id :: rest))
    (ids : List DefId) : motive ids :=
  match ids with
  | [] => nil
  | id :: rest => cons id rest (eraseDups_induction nil cons (rest.filter fun b => !b == id))
termination_by ids.length
decreasing_by exact Nat.lt_succ_of_le (List.length_filter_le _ rest)

/-- Keeping the first of every kind can be done before or after a choice. -/
theorem eraseDups_filter (p : DefId → Bool) (ids : List DefId) :
    (ids.filter p).eraseDups = ids.eraseDups.filter p := by
  induction ids using eraseDups_induction with
  | nil => rfl
  | cons id rest ih =>
    rw [List.eraseDups_cons, List.filter_cons, List.filter_cons, ← ih, List.filter_filter]
    by_cases hp : p id = true
    · rw [if_pos hp, if_pos hp, List.eraseDups_cons, List.filter_filter]
      simp only [Bool.and_comm]
    · rw [if_neg hp, if_neg hp]
      congr 1
      refine List.filter_congr fun b _ => ?_
      by_cases hb : b = id
      · simp [hb, hp]
      · simp [hb]

theorem nodup_eraseDups (ids : List DefId) : ids.eraseDups.Nodup := by
  induction ids using eraseDups_induction with
  | nil => exact List.nodup_nil
  | cons id rest ih =>
    rw [List.eraseDups_cons, List.nodup_cons]
    exact ⟨by simp, ih⟩

/-! ## 2. Waves -/

mutual

/-- What is found in so many steps and not in fewer, in the order in which it is found. -/
def wave (start : List DefId) (next : DefId → List DefId) : Nat → List DefId
  | 0 => start.eraseDups
  | k + 1 =>
    ((wave start next k).flatMap next).eraseDups.removeAll
      (wavesBefore start next k ++ wave start next k)

/-- The waves in front of a wave, one behind the other. -/
def wavesBefore (start : List DefId) (next : DefId → List DefId) : Nat → List DefId
  | 0 => []
  | k + 1 => wavesBefore start next k ++ wave start next k

end

/-- The least set that has the start and, with a definition, what is next to it. -/
inductive Reached (start : List DefId) (next : DefId → List DefId) : DefId → Prop where
  | start (id : DefId) (h : id ∈ start) : Reached start next id
  | next (id other : DefId) (h : Reached start next id) (ho : other ∈ next id) :
      Reached start next other

section Waves

variable {start : List DefId} {next : DefId → List DefId}

theorem wave_succ (k : Nat) :
    wave start next (k + 1) =
      ((wave start next k).flatMap next).eraseDups.removeAll (wavesBefore start next (k + 1)) := by
  rw [wave, wavesBefore]

theorem wavesBefore_succ (k : Nat) :
    wavesBefore start next (k + 1) = wavesBefore start next k ++ wave start next k := by
  rw [wavesBefore]

theorem wavesBefore_eq_flatMap (n : Nat) :
    wavesBefore start next n = (List.range n).flatMap (wave start next) := by
  induction n with
  | zero => rfl
  | succ n ih => rw [wavesBefore_succ, ih, List.range_succ, List.flatMap_append,
      List.flatMap_singleton]

theorem mem_wavesBefore_iff {n : Nat} {id : DefId} :
    id ∈ wavesBefore start next n ↔ ∃ k < n, id ∈ wave start next k := by
  rw [wavesBefore_eq_flatMap, List.mem_flatMap]
  exact exists_congr fun k => and_congr_left' List.mem_range

theorem mem_wave_succ_iff {k : Nat} {id : DefId} :
    id ∈ wave start next (k + 1) ↔
      (∃ other ∈ wave start next k, id ∈ next other) ∧ id ∉ wavesBefore start next (k + 1) := by
  rw [wave_succ, List.removeAll]
  simp

/-! ### Nothing is found twice -/

theorem nodup_wave (k : Nat) : (wave start next k).Nodup := by
  cases k with
  | zero => rw [wave]; exact nodup_eraseDups start
  | succ k => rw [wave_succ, List.removeAll]; exact (nodup_eraseDups _).filter _

theorem not_mem_wavesBefore {k : Nat} {id : DefId} (h : id ∈ wave start next k) :
    id ∉ wavesBefore start next k := by
  cases k with
  | zero => rw [wavesBefore]; exact List.not_mem_nil
  | succ k => exact (mem_wave_succ_iff.mp h).2

theorem nodup_wavesBefore (n : Nat) : (wavesBefore start next n).Nodup := by
  induction n with
  | zero => rw [wavesBefore]; exact List.nodup_nil
  | succ n ih =>
    rw [wavesBefore_succ, List.nodup_append]
    refine ⟨ih, nodup_wave n, ?_⟩
    rintro id hbefore other hwave rfl
    exact not_mem_wavesBefore hwave hbefore

/-! ### The end of the waves -/

theorem wave_eq_nil_of_le {k n : Nat} (h : wave start next k = []) (hkn : k ≤ n) :
    wave start next n = [] := by
  induction hkn with
  | refl => exact h
  | step _ ih => rw [wave_succ, ih]; rfl

theorem wavesBefore_eq_of_le {k n : Nat} (h : wave start next k = []) (hkn : k ≤ n) :
    wavesBefore start next n = wavesBefore start next k := by
  induction hkn with
  | refl => rfl
  | step hkm ih => rw [wavesBefore_succ, ih, wave_eq_nil_of_le h hkm, List.append_nil]

/-- As long as the waves go on, each brings at least one definition. -/
theorem le_length_wavesBefore {k : Nat} (h : wave start next k ≠ []) :
    k ≤ (wavesBefore start next k).length := by
  induction k with
  | zero => exact Nat.zero_le _
  | succ k ih =>
    have hk : wave start next k ≠ [] := fun hnil => h (wave_eq_nil_of_le hnil (Nat.le_succ k))
    have hpos := List.length_pos_iff.mpr hk
    have hle := ih hk
    rw [wavesBefore_succ, List.length_append]
    omega

/-- **There are no more waves than numbers to find.** -/
theorem wave_eq_nil_of_lt {size k : Nat} (hsize : size ≤ k)
    (h : ∀ id ∈ wavesBefore start next (k + 1), id < size) : wave start next k = [] := by
  refine Classical.byContradiction fun hk => ?_
  have hpos := List.length_pos_iff.mpr hk
  have hle := le_length_wavesBefore hk
  have hsub : wavesBefore start next (k + 1) ⊆ List.range size :=
    fun id hid => List.mem_range.mpr (h id hid)
  have hlen := (nodup_wavesBefore (k + 1)).length_le_of_subset hsub
  rw [wavesBefore_succ, List.length_append, List.length_range] at hlen
  omega

/-! ### What is found -/

/-- What is found leads to nothing that is not found at the latest one wave later. -/
theorem mem_wavesBefore_of_next {n : Nat} {id other : DefId}
    (h : id ∈ wavesBefore start next n) (ho : other ∈ next id) :
    other ∈ wavesBefore start next (n + 1) := by
  obtain ⟨k, hk, hid⟩ := mem_wavesBefore_iff.mp h
  by_cases hother : other ∈ wavesBefore start next (k + 1)
  · obtain ⟨j, hj, hmem⟩ := mem_wavesBefore_iff.mp hother
    exact mem_wavesBefore_iff.mpr ⟨j, by omega, hmem⟩
  · have hnew := mem_wave_succ_iff.mpr ⟨⟨id, hid, ho⟩, hother⟩
    exact mem_wavesBefore_iff.mpr ⟨k + 1, by omega, hnew⟩

theorem reached_of_mem_wave {k : Nat} {id : DefId} (h : id ∈ wave start next k) :
    Reached start next id := by
  induction k generalizing id with
  | zero =>
    rw [wave, List.mem_eraseDups] at h
    exact .start id h
  | succ k ih =>
    obtain ⟨⟨other, hother, hid⟩, -⟩ := mem_wave_succ_iff.mp h
    exact .next other id (ih hother) hid

/-- **What the waves find is what is reached.** -/
theorem exists_mem_wave_iff {id : DefId} :
    (∃ k, id ∈ wave start next k) ↔ Reached start next id := by
  constructor
  · intro h
    rcases h with ⟨k, hk⟩
    exact reached_of_mem_wave hk
  · intro h
    induction h with
    | start id h => exact ⟨0, by rwa [wave, List.mem_eraseDups]⟩
    | next id other _ ho ih =>
      obtain ⟨k, hk⟩ := ih
      have hid := mem_wavesBefore_iff.mpr ⟨k, Nat.lt_succ_self k, hk⟩
      obtain ⟨j, -, hj⟩ := mem_wavesBefore_iff.mp (mem_wavesBefore_of_next hid ho)
      exact ⟨j, hj⟩

/-- Once a wave is empty, everything that is reached was found before it. -/
theorem mem_wavesBefore_iff_reached {n : Nat} (h : wave start next n = []) {id : DefId} :
    id ∈ wavesBefore start next n ↔ Reached start next id := by
  rw [← exists_mem_wave_iff, mem_wavesBefore_iff]
  constructor
  · intro h
    rcases h with ⟨k, -, hk⟩
    exact ⟨k, hk⟩
  · intro h
    rcases h with ⟨k, hk⟩
    refine ⟨k, Nat.lt_of_not_le fun hle => ?_, hk⟩
    rw [wave_eq_nil_of_le h hle] at hk
    exact absurd hk List.not_mem_nil

end Waves

/-! ## 3. Other numbers -/

section Renumbered

variable {ρ : DefId → DefId}

/-- Distinct numbers that stay distinct can be found before or after they are changed. -/
theorem eraseDups_map {ids : List DefId}
    (h : ∀ id ∈ ids, ∀ other ∈ ids, ρ id = ρ other → id = other) :
    (ids.map ρ).eraseDups = ids.eraseDups.map ρ := by
  induction ids using eraseDups_induction with
  | nil => rfl
  | cons id rest ih =>
    have hmem : ∀ other ∈ rest.filter (fun b => !b == id), other ∈ id :: rest :=
      fun other hother => List.mem_cons_of_mem _ (List.mem_filter.mp hother).1
    have hfilter : (rest.map ρ).filter (fun b => !b == ρ id) =
        (rest.filter fun b => !b == id).map ρ := by
      rw [List.filter_map]
      congr 1
      refine List.filter_congr fun b hb => congrArg not (Bool.eq_iff_iff.mpr ?_)
      rw [beq_iff_eq, beq_iff_eq]
      exact ⟨h b (List.mem_cons_of_mem _ hb) id List.mem_cons_self, congrArg ρ⟩
    rw [List.map_cons, List.eraseDups_cons, List.eraseDups_cons, List.map_cons, hfilter,
      ih fun other hother last hlast => h other (hmem other hother) last (hmem last hlast)]

theorem removeAll_map {xs ys : List DefId}
    (h : ∀ id ∈ xs, ∀ other ∈ ys, ρ id = ρ other → id = other) :
    (xs.map ρ).removeAll (ys.map ρ) = (xs.removeAll ys).map ρ := by
  rw [List.removeAll, List.removeAll, List.filter_map]
  congr 1
  refine List.filter_congr fun id hid => congrArg not (Bool.eq_iff_iff.mpr ?_)
  rw [List.elem_iff, List.elem_iff]
  constructor
  · intro hmem
    obtain ⟨other, hother, heq⟩ := List.mem_map.mp hmem
    exact h id hid other hother heq.symm ▸ hother
  · exact List.mem_map_of_mem

theorem reached_of_mem_wavesBefore {start : List DefId} {next : DefId → List DefId} {n : Nat}
    {id : DefId} (h : id ∈ wavesBefore start next n) : Reached start next id := by
  obtain ⟨k, -, hk⟩ := mem_wavesBefore_iff.mp h
  exact reached_of_mem_wave hk

/-- **Under other numbers the waves are the same**, as long as no two definitions that are reached
    come to one number. -/
theorem wave_map {start : List DefId} {next next' : DefId → List DefId}
    (hnext : ∀ id, Reached start next id → next' (ρ id) = (next id).map ρ)
    (hinj : ∀ id other, Reached start next id → Reached start next other →
      ρ id = ρ other → id = other) (k : Nat) :
    wave (start.map ρ) next' k = (wave start next k).map ρ ∧
      wavesBefore (start.map ρ) next' k = (wavesBefore start next k).map ρ := by
  induction k with
  | zero =>
    rw [wave, wave, wavesBefore, wavesBefore]
    exact ⟨eraseDups_map fun id hid other hother => hinj id other (.start id hid)
      (.start other hother), rfl⟩
  | succ k ih =>
    obtain ⟨hwave, hbefore⟩ := ih
    have hall : wavesBefore (start.map ρ) next' (k + 1) =
        (wavesBefore start next (k + 1)).map ρ := by
      rw [wavesBefore_succ, wavesBefore_succ, hwave, hbefore, List.map_append]
    have hfound : ∀ id ∈ (wave start next k).flatMap next, Reached start next id := by
      intro id hid
      obtain ⟨other, hother, hid⟩ := List.mem_flatMap.mp hid
      exact .next other id (reached_of_mem_wave hother) hid
    have hflat : ((wave start next k).map ρ).flatMap next' =
        ((wave start next k).flatMap next).map ρ := by
      rw [List.flatMap_map, List.map_flatMap]
      exact List.flatMap_congr fun id hid => hnext id (reached_of_mem_wave hid)
    refine ⟨?_, hall⟩
    rw [wave_succ, wave_succ, hall, hwave, hflat,
      eraseDups_map fun id hid other hother => hinj id other (hfound id hid) (hfound other hother),
      removeAll_map fun id hid other hother => hinj id other
        (hfound id (List.mem_eraseDups.mp hid)) (reached_of_mem_wavesBefore hother)]

end Renumbered

end WireContract.Bindings
