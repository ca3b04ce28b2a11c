import Mathlib.Logic.Relation
import WireContract.Proofs.Type.Expressions
import WireContract.Proofs.Type.Naming

/-!
# The search for cycles of aliases

An alias leads to the references at the top of its body. The search follows them depth first from
one alias, keeps what it has visited, and stops where it comes back to the start.

* `HeadStep`: one step from an alias to a head of its body;
* `Way`: what a search that succeeds has found;
* `Searched`: what a search that fails has done: everything new that it visited leads only to what
  is visited, and not to the start;
* `walkAlias_spec`: one of the two, provided that every definition on the way is there and the
  fuel is enough for those not yet visited;
* `aliasCycle_eq_none_iff`: no cycle is found exactly if there is none.
-/

namespace WireContract

namespace TypeTable

open Relation

/-- One step from an alias to a reference at the top of its body. -/
def HeadStep (t : TypeTable) (current next : DefId) : Prop :=
  ∃ a, t.get current = .ok (.alias a) ∧ next ∈ a.ty.heads

/-- A way from a definition to the start, step by step; the start is met at its end only. -/
inductive Way (t : TypeTable) (start : DefId) : DefId → List DefId → Prop where
  | last (current : DefId) (h : t.HeadStep current start) : Way t start current [start]
  | step (current next : DefId) (way : List DefId) (h : t.HeadStep current next)
      (hne : next ≠ start) (hway : Way t start next way) : Way t start current (next :: way)

/-- A definition that leads only to what is visited, and not to the start. -/
def Finished (t : TypeTable) (start : DefId) (visited : List DefId) (id : DefId) : Prop :=
  ∀ next, t.HeadStep id next → next ≠ start ∧ next ∈ visited

/-- What was visited on searching from the start: nothing twice, and nothing that the start does
    not lead to. -/
structure Seen (t : TypeTable) (start : DefId) (visited : List DefId) : Prop where
  nodup : visited.Nodup
  reached : ∀ id ∈ visited, ReflTransGen t.HeadStep start id

/-- What a search without success has done to the list of visited definitions. -/
structure Searched (t : TypeTable) (start : DefId) (before after : List DefId) : Prop where
  seen : t.Seen start after
  suffix : before <:+ after
  finished : ∀ id ∈ after, id ∉ before → t.Finished start after id

section Search

variable {t : TypeTable} {start : DefId}

/-! ## 1. What is visited -/

theorem Finished.mono {before after : List DefId} {id : DefId}
    (h : t.Finished start before id) (hsub : before <:+ after) : t.Finished start after id :=
  fun next hnext => ⟨(h next hnext).1, hsub.subset (h next hnext).2⟩

theorem Searched.refl {visited : List DefId} (h : t.Seen start visited) :
    t.Searched start visited visited :=
  ⟨h, List.suffix_refl visited, fun _ hid hnew => absurd hid hnew⟩

theorem Searched.trans {first second third : List DefId} (h : t.Searched start first second)
    (h' : t.Searched start second third) : t.Searched start first third where
  seen := h'.seen
  suffix := h.suffix.trans h'.suffix
  finished id hid hnew := by
    by_cases hsecond : id ∈ second
    · exact (h.finished id hsecond hnew).mono h'.suffix
    · exact h'.finished id hid hsecond

/-- A definition that is visited and then searched from. -/
theorem Searched.of_cons {next : DefId} {before after : List DefId}
    (h : t.Searched start (next :: before) after) (hnext : t.Finished start after next) :
    t.Searched start before after where
  seen := h.seen
  suffix := (List.suffix_cons next before).trans h.suffix
  finished id hid hnew := by
    by_cases heq : id = next
    · rwa [heq]
    · exact h.finished id hid (by simp [heq, hnew])

theorem Seen.cons {next : DefId} {visited : List DefId} (h : t.Seen start visited)
    (hnext : ReflTransGen t.HeadStep start next) (hnew : next ∉ visited) :
    t.Seen start (next :: visited) :=
  ⟨List.nodup_cons.mpr ⟨hnew, h.nodup⟩, List.forall_mem_cons.mpr ⟨hnext, h.reached⟩⟩

/-- As long as all definitions on the way are there, no more are visited than the table has. -/
theorem Seen.length_le (hdef : ∀ id, ReflTransGen t.HeadStep start id → ∃ body, t.get id = .ok body)
    {visited : List DefId} (h : t.Seen start visited) : visited.length ≤ t.size := by
  have hsub : visited ⊆ List.range t.size := by
    intro id hid
    obtain ⟨body, hbody⟩ := hdef id (h.reached id hid)
    exact List.mem_range.mpr (lt_size_of_get hbody)
  have hlen := h.nodup.length_le_of_subset hsub
  rwa [List.length_range] at hlen

/-! ## 2. Outcomes -/

/-- What an outcome of the search from a definition says: a way to the start, or that there is
    none over what was not visited before. -/
inductive Outcome (t : TypeTable) (start current : DefId) (visited : List DefId) :
    Search → Prop where
  | found (way after : List DefId) (h : t.Way start current way) :
      Outcome t start current visited (.ok (some way, after))
  | none (after : List DefId) (h : t.Searched start visited after)
      (hcurrent : t.Finished start after current) :
      Outcome t start current visited (.ok (none, after))

/-- The same for the search over some heads of a definition. -/
inductive HeadsOutcome (t : TypeTable) (start current : DefId) (heads visited : List DefId) :
    Search → Prop where
  | found (way after : List DefId) (h : t.Way start current way) :
      HeadsOutcome t start current heads visited (.ok (some way, after))
  | none (after : List DefId) (h : t.Searched start visited after)
      (hheads : ∀ next ∈ heads, next ≠ start ∧ next ∈ after) :
      HeadsOutcome t start current heads visited (.ok (none, after))

/-- Heads tried one after another, each with a search that is right for what was not visited. -/
theorem tryHeads_spec {walk : DefId → List DefId → Search} {current : DefId}
    (bound : Nat) (hcurrent : ReflTransGen t.HeadStep start current)
    (hwalk : ∀ next visited, t.Seen start visited → bound ≤ visited.length →
      ReflTransGen t.HeadStep start next → t.Outcome start next visited (walk next visited))
    {heads visited : List DefId} (hheads : ∀ next ∈ heads, t.HeadStep current next)
    (hseen : t.Seen start visited) (hbound : bound ≤ visited.length + 1) :
    t.HeadsOutcome start current heads visited (tryHeads walk start heads visited) := by
  induction heads generalizing visited with
  | nil => exact .none visited (.refl hseen) fun _ hnext => absurd hnext List.not_mem_nil
  | cons next rest ih =>
    rw [List.forall_mem_cons] at hheads
    obtain ⟨hstep, hrest⟩ := hheads
    have hnext : ReflTransGen t.HeadStep start next := hcurrent.tail hstep
    unfold tryHeads
    by_cases hstart : next = start
    · rw [if_pos hstart, hstart]
      exact .found _ _ (.last current (hstart ▸ hstep))
    · rw [if_neg hstart]
      by_cases hold : next ∈ visited
      · rw [if_pos (List.contains_iff_mem.mpr hold)]
        have hall := ih hrest hseen hbound
        generalize tryHeads walk start rest visited = outcome at hall
        cases hall with
        | found way after h => exact .found way after h
        | none after h hheads =>
          have hafter : next ∈ after := h.suffix.subset hold
          exact .none after h (List.forall_mem_cons.mpr ⟨⟨hstart, hafter⟩, hheads⟩)
      · rw [if_neg (fun hmem => hold (List.contains_iff_mem.mp hmem))]
        have hone := hwalk next (next :: visited) (hseen.cons hnext hold) hbound hnext
        generalize walk next (next :: visited) = outcome at hone
        cases hone with
        | found way after h => exact .found _ _ (.step current next way hstep hstart h)
        | none between hbetween hfinished =>
          have hfirst := hbetween.of_cons hfinished
          have hle := hfirst.suffix.length_le
          have hall := ih hrest hfirst.seen (by omega)
          change t.HeadsOutcome start current (next :: rest) visited
            (tryHeads walk start rest between)
          generalize tryHeads walk start rest between = outcome at hall
          cases hall with
          | found way after h => exact .found way after h
          | none after h hheads =>
            have hafter : next ∈ after :=
              h.suffix.subset (hbetween.suffix.subset List.mem_cons_self)
            exact .none after (hfirst.trans h)
              (List.forall_mem_cons.mpr ⟨⟨hstart, hafter⟩, hheads⟩)

/-- **The search from a definition answers rightly** if the fuel is enough for what is not yet
    visited. Every search from a head has one definition more behind it and one fuel less. -/
theorem walkAlias_spec
    (hdef : ∀ id, ReflTransGen t.HeadStep start id → ∃ body, t.get id = .ok body) {fuel : Nat}
    {current : DefId} {visited : List DefId} (hcurrent : ReflTransGen t.HeadStep start current)
    (hseen : t.Seen start visited) (hfuel : t.size < fuel + visited.length) :
    t.Outcome start current visited (t.walkAlias start fuel current visited) := by
  induction fuel generalizing current visited with
  | zero =>
    have hle := hseen.length_le hdef
    omega
  | succ fuel ih =>
    obtain ⟨body, hbody⟩ := hdef current hcurrent
    unfold walkAlias
    rw [hbody]
    cases body with
    | «alias» a =>
      have hheads : ∀ next ∈ a.ty.heads, t.HeadStep current next :=
        fun next hnext => ⟨a, hbody, hnext⟩
      have hrest := tryHeads_spec (t.size + 1 - fuel) hcurrent
        (fun next visited hseen hbound hnext => ih hnext hseen (by omega)) hheads hseen (by omega)
      change t.Outcome start current visited
        (tryHeads (t.walkAlias start fuel) start a.ty.heads visited)
      generalize tryHeads (t.walkAlias start fuel) start a.ty.heads visited = outcome at hrest
      cases hrest with
      | found way after h => exact .found way after h
      | none after h hall =>
        refine .none after h ?_
        rintro next ⟨other, hother, hnext⟩
        rw [hbody] at hother
        cases hother
        exact hall next hnext
    | _ =>
      refine .none visited (.refl hseen) ?_
      rintro next ⟨other, hother, -⟩
      rw [hbody] at hother
      cases hother

/-! ## 3. Cycles -/

theorem Way.transGen {current : DefId} {way : List DefId} (h : t.Way start current way) :
    TransGen t.HeadStep current start := by
  induction h with
  | last current h => exact .single h
  | step current next way h _ _ ih => exact .head h ih

theorem Way.reached {current : DefId} {way : List DefId} (h : t.Way start current way)
    (hcurrent : ReflTransGen t.HeadStep start current) :
    ∀ id ∈ way, ReflTransGen t.HeadStep start id := by
  induction h with
  | last current h => exact List.forall_mem_singleton.mpr .refl
  | step current next way h _ _ ih =>
    exact List.forall_mem_cons.mpr ⟨hcurrent.tail h, ih (hcurrent.tail h)⟩

/-- A search from the start that has failed has visited all that the start leads to. -/
theorem Searched.not_cyclic {after : List DefId} (h : t.Searched start [] after)
    (hstart : t.Finished start after start) : ¬ TransGen t.HeadStep start start := by
  have hall : ∀ id, TransGen t.HeadStep start id → id ≠ start ∧ id ∈ after := by
    intro id hid
    induction hid with
    | single hstep => exact hstart _ hstep
    | tail _ hstep ih => exact h.finished _ ih.2 List.not_mem_nil _ hstep
  exact fun hcycle => (hall start hcycle).1 rfl

theorem name_of_get {id : DefId} {body : Definition} (h : t.get id = .ok body) :
    t.name id = .ok body.name := by
  rw [get] at h
  rw [name]
  cases hslot : t.slots[id]? with
  | none => simp [hslot] at h
  | some slot =>
    cases slot with
    | reserved name => simp [hslot] at h
    | defined other =>
      obtain rfl : other = body := by simpa [hslot] using h
      rfl

theorem mapM_name_eq {ids : List DefId} (h : ∀ id ∈ ids, ∃ body, t.get id = .ok body) :
    ids.mapM t.name = .ok (ids.map t.nameOf) := by
  induction ids with
  | nil => rfl
  | cons id rest ih =>
    rw [List.forall_mem_cons] at h
    obtain ⟨⟨body, hbody⟩, hrest⟩ := h
    rw [List.mapM_cons, name_of_get hbody, ih hrest, List.map_cons, nameOf_of_get hbody]
    rfl

/-- **No cycle is found exactly if there is none**, as long as every definition on the way is
    there. -/
theorem aliasCycle_eq_none_iff
    (hdef : ∀ id, ReflTransGen t.HeadStep start id → ∃ body, t.get id = .ok body) :
    t.aliasCycle start = .ok none ↔ ¬ TransGen t.HeadStep start start := by
  have hseen : t.Seen start [] := ⟨List.nodup_nil, fun _ hid => absurd hid List.not_mem_nil⟩
  have hfuel : t.size < t.size + 1 + ([] : List DefId).length := Nat.lt_succ_self t.size
  have hout := walkAlias_spec hdef .refl hseen hfuel
  rw [aliasCycle]
  generalize t.walkAlias start (t.size + 1) start [] = outcome at hout
  cases hout with
  | found way after h =>
    have hall : ∀ id ∈ start :: way, ∃ body, t.get id = .ok body := fun id hid =>
      hdef id (List.forall_mem_cons.mpr ⟨.refl, h.reached .refl⟩ id hid)
    refine iff_of_false (fun hnone => ?_) fun hnot => hnot h.transGen
    simp [bind, Except.bind, mapM_name_eq hall, pure, Except.pure] at hnone
  | none after h hstart => exact iff_of_true rfl (h.not_cyclic hstart)

end Search

end TypeTable

end WireContract
