import Mathlib.Data.List.Chain
import WireContract.Proofs.Type.AliasSearch

/-!
# The cycles that are found

The search for a cycle through an alias ends by itself, finds a cycle exactly if there is one, and
what it names is one: a way from the alias back to it, on which nothing else is met twice.

* `IsFresh`, `walkAlias_explored`: whatever the table is, a way that is found meets nothing that was
  visited before, and nothing twice;
* `walkAlias_of_lt`: a search that may go on for longer answers the same;
* `IsCycle`, `aliasCycle_decides`: the names that are found.
-/

namespace WireContract.TypeTable

open Relation

/-! ## 1. Ways without a repetition -/

/-- Whether all that lies between the two ends of a way is new: it is not the start, it was not
    visited before, and none of it is met twice. -/
structure IsFresh (start : DefId) (visited between : List DefId) : Prop where
  nodup : (start :: between).Nodup
  unvisited : ∀ id ∈ between, id ∉ visited

/-- What an outcome of a search says of the list of visited definitions, whether or not the
    definitions on the way are there. -/
inductive Explored (start : DefId) (visited : List DefId) : Search → Prop where
  | fault (fault : SchemaFault) : Explored start visited (.error fault)
  | found (between after : List DefId) (h : IsFresh start visited between) :
      Explored start visited (.ok (some (between ++ [start]), after))
  | none (after : List DefId) (h : visited ⊆ after) : Explored start visited (.ok (none, after))

section Ways

variable {t : TypeTable} {start : DefId}

theorem IsFresh.nil (visited : List DefId) : IsFresh start visited [] :=
  ⟨List.nodup_singleton start, fun _ hid => absurd hid List.not_mem_nil⟩

theorem IsFresh.mono {before after between : List DefId} (h : IsFresh start after between)
    (hsub : before ⊆ after) : IsFresh start before between :=
  ⟨h.nodup, fun id hid hmem => h.unvisited id hid (hsub hmem)⟩

/-- A definition that is visited and then searched from comes in front. -/
theorem IsFresh.cons {next : DefId} {visited between : List DefId}
    (h : IsFresh start (next :: visited) between) (hstart : next ≠ start) (hnew : next ∉ visited) :
    IsFresh start visited (next :: between) := by
  obtain ⟨hnot, hnodup⟩ := List.nodup_cons.mp h.nodup
  have hnext : next ∉ between := fun hmem => h.unvisited next hmem List.mem_cons_self
  refine ⟨List.nodup_cons.mpr ⟨?_, List.nodup_cons.mpr ⟨hnext, hnodup⟩⟩, ?_⟩
  · exact List.not_mem_cons_of_ne_of_not_mem hstart.symm hnot
  · refine List.forall_mem_cons.mpr ⟨hnew, fun id hid hmem => ?_⟩
    exact h.unvisited id hid (List.mem_cons_of_mem next hmem)

theorem Explored.mono {before after : List DefId} {outcome : Search}
    (h : Explored start after outcome) (hsub : before ⊆ after) : Explored start before outcome := by
  cases h with
  | fault fault => exact .fault fault
  | found between last h => exact .found between last (h.mono hsub)
  | none last h => exact .none last (List.Subset.trans hsub h)

theorem tryHeads_explored {walk : DefId → List DefId → Search}
    (hwalk : ∀ next visited, Explored start visited (walk next visited))
    (heads visited : List DefId) :
    Explored start visited (tryHeads walk start heads visited) := by
  induction heads generalizing visited with
  | nil => exact .none visited (List.Subset.refl visited)
  | cons next rest ih =>
    unfold tryHeads
    by_cases hstart : next = start
    · rw [if_pos hstart, hstart]
      exact .found [] visited (.nil visited)
    · rw [if_neg hstart]
      by_cases hold : next ∈ visited
      · rw [if_pos (List.contains_iff_mem.mpr hold)]
        exact ih visited
      · rw [if_neg fun hmem => hold (List.contains_iff_mem.mp hmem)]
        have hone := hwalk next (next :: visited)
        generalize walk next (next :: visited) = outcome at hone
        cases hone with
        | fault fault => exact .fault fault
        | found between after h => exact .found (next :: between) after (h.cons hstart hold)
        | none after h => exact (ih after).mono fun id hid => h (List.mem_cons_of_mem next hid)

/-- **A way that is found meets nothing twice.** -/
theorem walkAlias_explored (t : TypeTable) (start : DefId) (fuel : Nat) (current : DefId)
    (visited : List DefId) :
    Explored start visited (t.walkAlias start fuel current visited) := by
  induction fuel generalizing current visited with
  | zero => exact .none visited (List.Subset.refl visited)
  | succ fuel ih =>
    unfold walkAlias
    split
    · exact .fault _
    · exact tryHeads_explored ih _ visited
    · exact .none visited (List.Subset.refl visited)

end Ways

/-! ## 2. The end of the search -/

section Levels

variable {t : TypeTable} {start : DefId}

/-- Heads tried with two searches that agree on what is not yet visited. -/
theorem tryHeads_congr {walk walk' : DefId → List DefId → Search} {current : DefId}
    (bound : Nat) (hcurrent : ReflTransGen t.HeadStep start current)
    (hwalk : ∀ next visited, t.Seen start visited → bound ≤ visited.length →
      ReflTransGen t.HeadStep start next → t.Outcome start next visited (walk next visited))
    (hsame : ∀ next visited, t.Seen start visited → bound ≤ visited.length →
      ReflTransGen t.HeadStep start next → walk next visited = walk' next visited)
    {heads visited : List DefId} (hheads : ∀ next ∈ heads, t.HeadStep current next)
    (hseen : t.Seen start visited) (hbound : bound ≤ visited.length + 1) :
    tryHeads walk start heads visited = tryHeads walk' start heads visited := by
  induction heads generalizing visited with
  | nil => rfl
  | cons next rest ih =>
    rw [List.forall_mem_cons] at hheads
    obtain ⟨hstep, hrest⟩ := hheads
    have hnext : ReflTransGen t.HeadStep start next := hcurrent.tail hstep
    unfold tryHeads
    by_cases hstart : next = start
    · rw [if_pos hstart, if_pos hstart]
    · rw [if_neg hstart, if_neg hstart]
      by_cases hold : next ∈ visited
      · rw [if_pos (List.contains_iff_mem.mpr hold), if_pos (List.contains_iff_mem.mpr hold)]
        exact ih hrest hseen hbound
      · have hnot : ¬ visited.contains next = true := fun h => hold (List.contains_iff_mem.mp h)
        have hvisited := hseen.cons hnext hold
        have hone := hwalk next (next :: visited) hvisited hbound hnext
        rw [if_neg hnot, if_neg hnot, ← hsame next (next :: visited) hvisited hbound hnext]
        generalize walk next (next :: visited) = outcome at hone
        cases hone with
        | found way after h => rfl
        | none between hbetween hfinished =>
          have hfirst := hbetween.of_cons hfinished
          have hle := hfirst.suffix.length_le
          exact ih hrest hfirst.seen (by omega)

/-- **A search that may go on for longer answers the same**: with as much fuel as there are
    definitions to visit it ends by itself. -/
theorem walkAlias_of_lt
    (hdef : ∀ id, ReflTransGen t.HeadStep start id → ∃ body, t.get id = .ok body)
    {fuel fuel' : Nat} {current : DefId} {visited : List DefId}
    (hcurrent : ReflTransGen t.HeadStep start current) (hseen : t.Seen start visited)
    (hfuel : t.size < fuel + visited.length) (hfuel' : t.size < fuel' + visited.length) :
    t.walkAlias start fuel current visited = t.walkAlias start fuel' current visited := by
  have hle := hseen.length_le hdef
  induction fuel generalizing fuel' current visited with
  | zero => omega
  | succ fuel ih =>
    cases fuel' with
    | zero => omega
    | succ fuel' =>
      obtain ⟨body, hbody⟩ := hdef current hcurrent
      unfold walkAlias
      rw [hbody]
      cases body with
      | «alias» a =>
        refine tryHeads_congr (t.size + 1 - min fuel fuel') hcurrent
          (fun next visited hseen hbound hnext => walkAlias_spec hdef hnext hseen (by omega))
          (fun next visited hseen hbound hnext =>
            ih hnext hseen (by omega) (by omega) (hseen.length_le hdef)) ?_ hseen (by omega)
        exact fun next hnext => ⟨a, hbody, hnext⟩
      | _ => rfl

end Levels

/-! ## 3. The names along a cycle -/

/-- A cycle of aliases through one of them, given by what lies between its ends. -/
structure IsCycle (t : TypeTable) (start : DefId) (between : List DefId) : Prop where
  /-- Every definition leads to the next as an alias with that at the top of its body. -/
  steps : List.IsChain t.HeadStep (start :: (between ++ [start]))
  /-- Only the start is met again, at the end. -/
  nodup : (start :: between).Nodup

section Cycles

variable {t : TypeTable} {start : DefId}

theorem Way.isChain {current : DefId} {way : List DefId} (h : t.Way start current way) :
    List.IsChain t.HeadStep (current :: way) := by
  induction h with
  | last current h => exact List.isChain_pair.mpr h
  | step current next way h _ _ ih => exact List.isChain_cons_cons.mpr ⟨h, ih⟩

theorem aliasCycle_of_walk_none {after : List DefId}
    (h : t.walkAlias start (t.size + 1) start [] = .ok (none, after)) :
    t.aliasCycle start = .ok none := by
  rw [aliasCycle, h]
  rfl

theorem aliasCycle_of_walk_some {way after : List DefId}
    (h : t.walkAlias start (t.size + 1) start [] = .ok (some way, after))
    (hway : ∀ id ∈ start :: way, ∃ body, t.get id = .ok body) :
    t.aliasCycle start = .ok (some ((start :: way).map t.nameOf)) := by
  rw [aliasCycle, h]
  simp only [bind, Except.bind, mapM_name_eq hway, pure, Except.pure]

/-- The search either names a cycle or finds that there is none. -/
theorem aliasCycle_cases
    (hdef : ∀ id, ReflTransGen t.HeadStep start id → ∃ body, t.get id = .ok body) :
    (TransGen t.HeadStep start start ∧ ∃ between, t.IsCycle start between ∧
        t.aliasCycle start = .ok (some ((start :: (between ++ [start])).map t.nameOf))) ∨
      ¬ TransGen t.HeadStep start start ∧ t.aliasCycle start = .ok none := by
  have hseen : t.Seen start [] := ⟨List.nodup_nil, fun _ hid => absurd hid List.not_mem_nil⟩
  have hspec := walkAlias_spec hdef .refl hseen (Nat.lt_succ_self t.size)
  have hexplored := walkAlias_explored t start (t.size + 1) start []
  cases hwalk : t.walkAlias start (t.size + 1) start [] with
  | error fault =>
    rw [hwalk] at hspec
    cases hspec
  | ok outcome =>
    rw [hwalk] at hspec hexplored
    cases hspec with
    | found way after hway =>
      cases hexplored with
      | found between after hfresh =>
        have hreached : ∀ id ∈ start :: (between ++ [start]), ReflTransGen t.HeadStep start id :=
          List.forall_mem_cons.mpr ⟨.refl, hway.reached .refl⟩
        refine .inl ⟨hway.transGen, between, ⟨hway.isChain, hfresh.nodup⟩, ?_⟩
        exact aliasCycle_of_walk_some hwalk fun id hid => hdef id (hreached id hid)
    | none after h hstart => exact .inr ⟨h.not_cyclic hstart, aliasCycle_of_walk_none hwalk⟩

/-- **The search decides whether an alias lies on a cycle**, as long as every definition on the way
    is there. It ends by itself; it finds something exactly if there is a cycle, and nothing if
    there is none; and what it finds are the names along a cycle on which only the start is met
    twice. From what is no alias it finds nothing. -/
theorem aliasCycle_decides
    (hdef : ∀ id, ReflTransGen t.HeadStep start id → ∃ body, t.get id = .ok body) :
    (∀ fuel, t.size < fuel →
      t.walkAlias start fuel start [] = t.walkAlias start (t.size + 1) start []) ∧
    ((∃ names, t.aliasCycle start = .ok (some names)) ↔ TransGen t.HeadStep start start) ∧
    (t.aliasCycle start = .ok none ↔ ¬ TransGen t.HeadStep start start) ∧
    (∀ names, t.aliasCycle start = .ok (some names) → ∃ between, t.IsCycle start between ∧
      names = (start :: (between ++ [start])).map t.nameOf) ∧
    ((∀ a, t.get start ≠ .ok (.alias a)) → t.aliasCycle start = .ok none) := by
  have hnone := aliasCycle_eq_none_iff hdef
  have hseen : t.Seen start [] := ⟨List.nodup_nil, fun _ hid => absurd hid List.not_mem_nil⟩
  refine ⟨fun fuel hfuel => ?_, ?_, hnone, fun names hnames => ?_, fun hother => ?_⟩
  · exact walkAlias_of_lt hdef .refl hseen hfuel (Nat.lt_succ_self t.size)
  · rcases aliasCycle_cases hdef with ⟨hcycle, between, -, h⟩ | ⟨hnot, h⟩
    · exact iff_of_true ⟨_, h⟩ hcycle
    · refine iff_of_false (fun hsome => ?_) hnot
      obtain ⟨names, hnames⟩ := hsome
      rw [h] at hnames
      cases hnames
  · rcases aliasCycle_cases hdef with ⟨-, between, hcycle, h⟩ | ⟨-, h⟩
    · rw [h] at hnames
      exact ⟨between, hcycle, (Option.some.inj (Except.ok.inj hnames)).symm⟩
    · rw [h] at hnames
      cases hnames
  · refine hnone.mpr fun hcycle => ?_
    obtain ⟨next, ⟨a, ha, -⟩, -⟩ := TransGen.head'_iff.mp hcycle
    exact hother a ha

/-- Aliases of which the first leads over the second to a struct, and over the third to itself. The
    third leads to the second too, which was visited in vain by then. -/
def detour : TypeTable where
  slots := [
    .defined (.alias { name := "Root", ty := .union [.reference 1, .optional (.reference 2)] }),
    .defined (.alias { name := "Leaf", ty := .optional (.reference 3) }),
    .defined (.alias { name := "Branch", ty := .union [.reference 1, .reference 0, .number] }),
    .defined (.struct { name := "Node", fields := [{ name := "root", ty := .reference 0 }] })]

theorem detour_heads_lt {id : DefId} {a : AliasDef} (h : detour.get id = .ok (.alias a)) :
    ∀ next ∈ a.ty.heads, next < 4 := by
  match id, lt_size_of_get h with
  | 0, _ => cases h; decide
  | 1, _ => cases h; decide
  | 2, _ => cases h; decide
  | 3, _ => cases h

/-- All that the first alias leads to is there. -/
theorem exists_get_detour {id : DefId} (h : ReflTransGen detour.HeadStep 0 id) :
    ∃ body, detour.get id = .ok body := by
  have hlt : id < 4 := by
    cases h with
    | refl => decide
    | tail _ hstep =>
      obtain ⟨a, ha, hnext⟩ := hstep
      exact detour_heads_lt ha id hnext
  match id, hlt with
  | 0, _ => exact ⟨_, rfl⟩
  | 1, _ => exact ⟨_, rfl⟩
  | 2, _ => exact ⟨_, rfl⟩
  | 3, _ => exact ⟨_, rfl⟩

theorem aliasCycle_decides_detour :
    (∀ id, ReflTransGen detour.HeadStep 0 id → ∃ body, detour.get id = .ok body) ∧
    detour.aliasCycle 0 = .ok (some ["Root", "Branch", "Root"]) ∧
    TransGen detour.HeadStep 0 0 ∧
    ∃ between, detour.IsCycle 0 between ∧
      ["Root", "Branch", "Root"] = (0 :: (between ++ [0])).map detour.nameOf := by
  have hfound : detour.aliasCycle 0 = .ok (some ["Root", "Branch", "Root"]) := rfl
  obtain ⟨-, hsome, -, hnames, -⟩ := aliasCycle_decides fun id hid => exists_get_detour hid
  exact ⟨fun id hid => exists_get_detour hid, hfound, hsome.mp ⟨_, hfound⟩, hnames _ hfound⟩

end Cycles

end WireContract.TypeTable
