import WireContract.Type.AliasCycle
import Mathlib.Data.List.Nodup

/-!
# The search for cycles of aliases ends on every table

Nothing has to be known of a table for the search to end: what it visits is new every time, and it
goes on from a definition only if that is there. So it comes to a reference that leads nowhere, or
has met as many definitions as there are, before the bound that it is given is used up; and a higher
bound makes no difference. That the search answers rightly is shown elsewhere, and only for tables
where every reference on the way leads somewhere.

* `Met`, `Meets`: what was met before a definition, and with it;
* `walkAlias_ends`: two searches with enough fuel answer the same.
-/

namespace WireContract.TypeTable

variable {t : TypeTable} {start current : DefId} {visited : List DefId}

/-- What was met on searching from the start, which is not counted as visited: nothing twice, and
    all of it is there. -/
structure Met (t : TypeTable) (start : DefId) (visited : List DefId) : Prop where
  nodup : (start :: visited).Nodup
  there : ∀ id ∈ start :: visited, ∃ body, t.get id = .ok body

/-- The same with one definition among it of which it is not known yet whether it is there. -/
structure Meets (t : TypeTable) (start current : DefId) (visited : List DefId) : Prop where
  nodup : (start :: visited).Nodup
  mem : current ∈ start :: visited
  there : ∀ id ∈ start :: visited, id ≠ current → ∃ body, t.get id = .ok body

theorem Meets.first (t : TypeTable) (start : DefId) : t.Meets start start [] :=
  ⟨List.nodup_singleton start, List.mem_singleton_self start,
    fun _ hid hne => absurd (List.mem_singleton.mp hid) hne⟩

/-- A definition that is visited next. -/
theorem Met.meets (h : t.Met start visited) {next : DefId} (hstart : next ≠ start)
    (hnew : next ∉ visited) : t.Meets start next (next :: visited) := by
  obtain ⟨hstartnew, hnodup⟩ := List.nodup_cons.mp h.nodup
  refine ⟨?_, List.mem_cons_of_mem _ List.mem_cons_self, fun id hid hne => h.there id ?_⟩
  · refine List.nodup_cons.mpr ⟨?_, List.nodup_cons.mpr ⟨hnew, hnodup⟩⟩
    exact List.not_mem_cons_of_ne_of_not_mem hstart.symm hstartnew
  · simpa [hne] using hid

theorem Meets.met (h : t.Meets start current visited) {body : Definition}
    (hbody : t.get current = .ok body) : t.Met start visited := by
  refine ⟨h.nodup, fun id hid => ?_⟩
  by_cases hid' : id = current
  · exact ⟨body, hid' ▸ hbody⟩
  · exact h.there id hid hid'

/-- All that was met is there but for one at the most, and the start is not counted. -/
theorem Meets.length_le (h : t.Meets start current visited) : visited.length ≤ t.size := by
  have hsub : (start :: visited).erase current ⊆ List.range t.size := by
    intro id hid
    obtain ⟨hne, hid⟩ := (h.nodup.mem_erase_iff).mp hid
    obtain ⟨body, hbody⟩ := h.there id hid hne
    exact List.mem_range.mpr (lt_size_of_get hbody)
  have hlen := (h.nodup.erase current).length_le_of_subset hsub
  rwa [List.length_erase_of_mem h.mem, List.length_range, List.length_cons] at hlen

/-- Two outcomes of a search are one, and if nothing was found, what was visited besides was met. -/
structure SameEnd (t : TypeTable) (start : DefId) (visited : List DefId)
    (outcome outcome' : Search) : Prop where
  same : outcome = outcome'
  met : ∀ after, outcome = .ok (none, after) →
    t.Met start after ∧ visited.length ≤ after.length

/-- Heads tried with two searches that come to one end. -/
theorem tryHeads_ends {walk walk' : DefId → List DefId → Search} (bound : Nat)
    (hwalk : ∀ next visited, t.Meets start next visited → bound ≤ visited.length →
      t.SameEnd start visited (walk next visited) (walk' next visited)) {heads : List DefId}
    (hmet : t.Met start visited) (hbound : bound ≤ visited.length + 1) :
    t.SameEnd start visited (tryHeads walk start heads visited)
      (tryHeads walk' start heads visited) := by
  induction heads generalizing visited with
  | nil =>
    refine ⟨rfl, ?_⟩
    rintro after ⟨⟩
    exact ⟨hmet, Nat.le_refl _⟩
  | cons next rest ih =>
    unfold tryHeads
    by_cases hstart : next = start
    · rw [if_pos hstart, if_pos hstart]
      exact ⟨rfl, nofun⟩
    · rw [if_neg hstart, if_neg hstart]
      by_cases hold : next ∈ visited
      · rw [if_pos (List.contains_iff_mem.mpr hold), if_pos (List.contains_iff_mem.mpr hold)]
        exact ih hmet hbound
      · have hnot : ¬ visited.contains next = true := fun h => hold (List.contains_iff_mem.mp h)
        have hone := hwalk next (next :: visited) (hmet.meets hstart hold) hbound
        rw [if_neg hnot, if_neg hnot, ← hone.same]
        cases hout : walk next (next :: visited) with
        | error fault => exact ⟨rfl, nofun⟩
        | ok found =>
          obtain ⟨_ | way, after⟩ := found
          · -- the others are tried with what this search has visited
            obtain ⟨hafter, hle⟩ := hone.met after hout
            rw [List.length_cons] at hle
            have hrest := ih hafter (by omega)
            refine ⟨hrest.same, fun last hlast => ?_⟩
            obtain ⟨hmetLast, hleLast⟩ := hrest.met last hlast
            exact ⟨hmetLast, by omega⟩
          · exact ⟨rfl, nofun⟩

/-- **Two searches with enough fuel answer the same**, whatever the table is. Every search from a
    head has one definition more behind it and one fuel less, so that no search is ever without. -/
theorem walkAlias_ends {fuel fuel' : Nat} (h : t.Meets start current visited)
    (hfuel : t.size < fuel + visited.length) (hfuel' : t.size < fuel' + visited.length) :
    t.SameEnd start visited (t.walkAlias start fuel current visited)
      (t.walkAlias start fuel' current visited) := by
  have hle := h.length_le
  induction fuel generalizing fuel' current visited with
  | zero => omega
  | succ fuel ih =>
    cases fuel' with
    | zero => omega
    | succ fuel' =>
      unfold walkAlias
      cases hget : t.get current with
      | error fault => exact ⟨rfl, nofun⟩
      | ok body =>
        have hmet := h.met hget
        cases body with
        | «alias» a =>
          exact tryHeads_ends (t.size + 1 - min fuel fuel')
            (fun next visited hmeets hbound =>
              ih hmeets (by omega) (by omega) hmeets.length_le) hmet (by omega)
        | _ =>
          refine ⟨rfl, ?_⟩
          rintro after ⟨⟩
          exact ⟨hmet, Nat.le_refl _⟩

end WireContract.TypeTable
