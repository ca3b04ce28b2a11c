import Mathlib.Data.List.Induction
import WireContract.Proofs.Bindings.Mentions
import WireContract.Proofs.Bindings.Settings
import WireContract.Proofs.InPlace.Table
import WireContract.Proofs.Type.SearchEnd

/-!
# Draining the worklist in place

The declarations are written batch by batch until a batch is empty, and nothing counts the batches.
While a block is written the worklist is written to, and what a block mentioned before a fault stays
discovered; so the writing may be taken up again behind a fault, from a worklist that no run to the
end comes by. The loop ends all the same: a definition is looked up before it is discovered, so that
only numbers of the table wait, and one that waits is new.

* `writeDraft`, `declareAll`, `pass`: a block, a row of declarations and a batch, written in place;
* `Drains`: the loop, with the batches that it hands out and the worklist that it leaves behind;
* `Work`, `behind`: the worklists that any writing leaves behind, of which any part may have failed;
* `Worklist.Within`: what waits or was handed out is there, and nothing is twice;
* `resolve_of_drains`: with a limit of as many batches, the loop is `resolve`;
* `draining_ends`: the loop ends.
-/

namespace WireContract.Bindings

open InPlace

/-! ## 1. Writing in place -/

/-- Write a block: what it mentions is discovered, up to the fault that ends it, if one does. -/
def writeDraft (d : Draft) : InPlace Worklist Unit := do
  modify fun w => w.discoverAll d.mentions
  MonadExcept.ofExcept (d.finished.map fun _ => ())

/-- Write declarations one after another. -/
def declareAll (types : TypeTable) (indentation : String) : List DefId → InPlace Worklist Unit
  | [] => pure ()
  | id :: rest => do
    writeDraft (declarationText types indentation id)
    declareAll types indentation rest

/-- Hand out what is waiting and write its declarations. -/
def pass (types : TypeTable) (indentation : String) (w : Worklist) :
    Except SchemaFault Unit × Worklist :=
  on (declareAll types indentation w.takeBatch.1) w.takeBatch.2

/-- The loop over the batches, without a limit. It ends with the first batch that is empty or
    cannot be written. -/
inductive Drains (types : TypeTable) (indentation : String) :
    Worklist → List (List DefId) → Except SchemaFault Unit → Worklist → Prop where
  | done (w : Worklist) (h : w.takeBatch.1 = []) :
      Drains types indentation w [] (.ok ()) w.takeBatch.2
  | failed (w last : Worklist) (fault : SchemaFault) (h : w.takeBatch.1 ≠ [])
      (hpass : pass types indentation w = (.error fault, last)) :
      Drains types indentation w [w.takeBatch.1] (.error fault) last
  | next (w w' last : Worklist) (batches : List (List DefId)) (outcome : Except SchemaFault Unit)
      (h : w.takeBatch.1 ≠ []) (hpass : pass types indentation w = (.ok (), w'))
      (hrest : Drains types indentation w' batches outcome last) :
      Drains types indentation w (w.takeBatch.1 :: batches) outcome last

/-- A part of the writing: a wrapper, or a batch of declarations. -/
inductive Work where
  | wrapper (m : Method)
  | batch

/-- The worklist behind a part of the writing, whether it fails or not. -/
def Work.perform (types : TypeTable) (options : Options) : Work → Worklist → Worklist
  | .wrapper m, w => (on (writeDraft (wrapperText types options m)) w).2
  | .batch, w => (pass types options.indentation w).2

/-- The worklist behind any writing from the start on. -/
def behind (types : TypeTable) (options : Options) (works : List Work) : Worklist :=
  works.foldl (fun w work => work.perform types options w) {}

section Rows

variable {types : TypeTable} {indentation : String}

theorem on_writeDraft (d : Draft) (w : Worklist) :
    on (writeDraft d) w = (d.finished.map fun _ => (), w.discoverAll d.mentions) := by
  rw [writeDraft]
  simp only [on_bind, on_modify, on_ofExcept]

theorem discoverAll_resolved (w : Worklist) (ids : List DefId) :
    (w.discoverAll ids).resolved = w.resolved := by
  rw [Worklist.discoverAll_eq]

/-- Writing declarations hands out nothing. -/
theorem declareAll_resolved (ids : List DefId) (w : Worklist) :
    (on (declareAll types indentation ids) w).2.resolved = w.resolved := by
  induction ids generalizing w with
  | nil => rfl
  | cons id rest ih =>
    rw [declareAll, on_bind, on_writeDraft]
    cases (declarationText types indentation id).finished with
    | error fault => exact discoverAll_resolved w _
    | ok text => exact (ih _).trans (discoverAll_resolved w _)

/-- A batch hands out what was waiting, whether it is written to its end or not. -/
theorem pass_resolved {w w' : Worklist} {outcome : Except SchemaFault Unit}
    (h : pass types indentation w = (outcome, w')) : w'.resolved = w.resolved ++ w.pending := by
  have hresolved : (pass types indentation w).2.resolved = w.resolved ++ w.pending :=
    declareAll_resolved w.takeBatch.1 w.takeBatch.2
  rwa [h] at hresolved

/-- What is handed out on the way is handed out in the end. -/
theorem Drains.resolved {w last : Worklist} {batches : List (List DefId)}
    {outcome : Except SchemaFault Unit}
    (h : Drains types indentation w batches outcome last) :
    last.resolved = w.resolved ++ batches.flatten := by
  induction h with
  | done w h =>
    have hpending : w.pending = [] := h
    simp [Worklist.takeBatch, hpending]
  | failed w last fault h hpass =>
    rw [pass_resolved hpass, List.flatten_singleton]
    rfl
  | next w w' last batches outcome h hpass hrest ih =>
    rw [ih, pass_resolved hpass, List.flatten_cons, List.append_assoc]
    rfl

/-- No batch that is handed out is empty. -/
theorem Drains.ne_nil {w last : Worklist} {batches : List (List DefId)}
    {outcome : Except SchemaFault Unit}
    (h : Drains types indentation w batches outcome last) : ∀ batch ∈ batches, batch ≠ [] := by
  induction h with
  | done => exact fun batch hbatch => absurd hbatch List.not_mem_nil
  | failed w last fault h hpass => exact List.forall_mem_singleton.mpr h
  | next w w' last batches outcome h hpass hrest ih => exact List.forall_mem_cons.mpr ⟨h, ih⟩

/-- The loop has one course. -/
theorem Drains.unique {w last last' : Worklist} {batches batches' : List (List DefId)}
    {outcome outcome' : Except SchemaFault Unit}
    (h : Drains types indentation w batches outcome last)
    (h' : Drains types indentation w batches' outcome' last') :
    batches' = batches ∧ outcome' = outcome ∧ last' = last := by
  induction h generalizing batches' outcome' last' with
  | done w h =>
    cases h' with
    | done => exact ⟨rfl, rfl, rfl⟩
    | failed _ _ _ h' => exact absurd h h'
    | next _ _ _ _ _ h' => exact absurd h h'
  | failed w last fault h hpass =>
    cases h' with
    | done _ h' => exact absurd h' h
    | failed _ _ _ _ hpass' =>
      cases hpass.symm.trans hpass'
      exact ⟨rfl, rfl, rfl⟩
    | next _ _ _ _ _ _ hpass' => cases hpass.symm.trans hpass'
  | next w w' last batches outcome h hpass hrest ih =>
    cases h' with
    | done _ h' => exact absurd h' h
    | failed _ _ _ _ hpass' => cases hpass.symm.trans hpass'
    | next _ _ _ _ _ _ hpass' hrest' =>
      cases hpass.symm.trans hpass'
      obtain ⟨rfl, rfl, rfl⟩ := ih hrest'
      exact ⟨rfl, rfl, rfl⟩

end Rows

/-! ## 2. What any writing keeps -/

/-- What waits or was handed out is there, and nothing is twice. -/
structure Worklist.Within (w : Worklist) (types : TypeTable) : Prop where
  nodup : (w.resolved ++ w.pending).Nodup
  there : ∀ id ∈ w.resolved ++ w.pending, IsThere types id

section Kept

variable {types : TypeTable} {indentation : String} {w : Worklist}

theorem Worklist.Within.start (types : TypeTable) : Worklist.Within {} types :=
  ⟨List.nodup_nil, fun _ hid => absurd hid List.not_mem_nil⟩

/-- What is discovered is new, and it is there if what is mentioned is. -/
theorem Worklist.Within.discoverAll (hw : w.Within types) {ids : List DefId}
    (hids : ∀ id ∈ ids, IsThere types id) : (w.discoverAll ids).Within types := by
  rw [Worklist.discoverAll_eq]
  have hnew : ∀ id ∈ (ids.filter fun id => !w.knows id).eraseDups,
      id ∈ ids ∧ id ∉ w.resolved ++ w.pending := by
    intro id hid
    obtain ⟨hmem, hknown⟩ := List.mem_filter.mp (List.mem_eraseDups.mp hid)
    exact ⟨hmem, by simpa [Worklist.knows] using hknown⟩
  refine ⟨?_, ?_⟩
  · rw [← List.append_assoc, List.nodup_append]
    refine ⟨hw.nodup, nodup_eraseDups _, ?_⟩
    rintro id hid other hother rfl
    exact (hnew id hother).2 hid
  · rw [← List.append_assoc]
    exact List.forall_mem_append.mpr ⟨hw.there, fun id hid => hids id (hnew id hid).1⟩

/-- What is handed out stays known. -/
theorem Worklist.Within.takeBatch (hw : w.Within types) : w.takeBatch.2.Within types := by
  have hall : w.takeBatch.2.resolved ++ w.takeBatch.2.pending = w.resolved ++ w.pending :=
    List.append_nil _
  exact ⟨hall ▸ hw.nodup, hall ▸ hw.there⟩

theorem Worklist.Within.writeDraft (hw : w.Within types) {d : Draft}
    (hd : d.MentionsOnly (IsThere types)) : (on (writeDraft d) w).2.Within types := by
  rw [on_writeDraft]
  exact hw.discoverAll hd

theorem Worklist.Within.declareAll (hw : w.Within types) (ids : List DefId) :
    (on (declareAll types indentation ids) w).2.Within types := by
  induction ids generalizing w with
  | nil => exact hw
  | cons id rest ih =>
    have hid := hw.writeDraft (declarationText_mentions types indentation id)
    rw [on_writeDraft] at hid
    rw [Bindings.declareAll, on_bind, on_writeDraft]
    cases (declarationText types indentation id).finished with
    | error fault => exact hid
    | ok text => exact ih hid

theorem Worklist.Within.pass (hw : w.Within types) {w' : Worklist}
    {outcome : Except SchemaFault Unit}
    (h : Bindings.pass types indentation w = (outcome, w')) : w'.Within types := by
  have hall : (Bindings.pass types indentation w).2.Within types :=
    hw.takeBatch.declareAll w.takeBatch.1
  rwa [h] at hall

/-- **Any writing keeps the worklist within the table.** -/
theorem within_behind (types : TypeTable) (options : Options) (works : List Work) :
    (behind types options works).Within types := by
  induction works using List.reverseRecOn with
  | nil => exact .start types
  | append_singleton works work ih =>
    rw [behind, List.foldl_append]
    change (work.perform types options (behind types options works)).Within types
    cases work with
    | wrapper m => exact ih.writeDraft (wrapperText_mentions types options m)
    | batch => exact ih.pass rfl

theorem Drains.within {last : Worklist} {batches : List (List DefId)}
    {outcome : Except SchemaFault Unit} (hw : w.Within types)
    (h : Drains types indentation w batches outcome last) : last.Within types := by
  induction h with
  | done w h => exact hw.takeBatch
  | failed w last fault h hpass => exact hw.pass hpass
  | next w w' last batches outcome h hpass hrest ih => exact ih (hw.pass hpass)

/-- No more is handed out than the table has. -/
theorem Worklist.Within.length_le (hw : w.Within types) :
    w.resolved.length + w.pending.length ≤ types.size := by
  have hsub : w.resolved ++ w.pending ⊆ List.range types.size := by
    intro id hid
    obtain ⟨body, hbody⟩ := hw.there id hid
    exact List.mem_range.mpr (TypeTable.lt_size_of_get hbody)
  have hlen := hw.nodup.length_le_of_subset hsub
  rwa [List.length_append, List.length_range] at hlen

/-! ## 3. The end -/

/-- **The loop ends.** The induction is on what the table has besides what was handed out: a batch
    that is not empty leaves less of it. -/
theorem drains_of_within (hw : w.Within types) (indentation : String) :
    ∃ batches outcome last, Drains types indentation w batches outcome last := by
  induction hleft : types.size - w.resolved.length using Nat.strongRecOn
    generalizing w with
  | ind left ih =>
    by_cases h : w.takeBatch.1 = []
    · exact ⟨[], .ok (), _, .done w h⟩
    · cases hpass : Bindings.pass types indentation w with
      | mk outcome w' =>
        cases outcome with
        | error fault => exact ⟨_, _, _, .failed w w' fault h hpass⟩
        | ok out =>
          have hpos : 0 < w.pending.length := List.length_pos_iff.mpr h
          have hle := hw.length_le
          have hless : types.size - w'.resolved.length < left := by
            rw [pass_resolved hpass, List.length_append]
            omega
          obtain ⟨batches, outcome, last, hrest⟩ := ih _ hless (hw.pass hpass) rfl
          exact ⟨_, _, _, .next w w' last batches outcome h hpass hrest⟩

end Kept

/-! ## 4. The same with a limit -/

section Limit

variable {types : TypeTable} {options : Options} {indentation : String}

/-- Declarations that are written in place leave the worklist that `writeBatch` leaves, unless there
    is a fault, which is the same then. -/
theorem writeBatch_map_worklist (ids : List DefId) (p : Progress) :
    (writeBatch types indentation ids p).map Progress.worklist =
      (on (declareAll types indentation ids) p.worklist).1.map fun _ =>
        (on (declareAll types indentation ids) p.worklist).2 := by
  induction ids generalizing p with
  | nil => rfl
  | cons id rest ih =>
    rw [writeBatch, declareAll, on_bind, on_writeDraft, Draft.finished]
    cases hfault : (declarationText types indentation id).fault with
    | some fault => rfl
    | none => exact ih _

/-- The same for a batch that was waiting. -/
theorem writeBatch_of_pass {p : Progress} {outcome : Except SchemaFault Unit} {w' : Worklist}
    (h : pass types indentation p.worklist = (outcome, w')) :
    (writeBatch types indentation p.worklist.takeBatch.1
      { p with worklist := p.worklist.takeBatch.2 }).map Progress.worklist =
      outcome.map fun _ => w' := by
  rw [writeBatch_map_worklist]
  exact congrArg (fun run : Except SchemaFault Unit × Worklist => run.1.map fun _ => run.2) h

/-- Wrappers that are all written leave the worklist behind that they leave in place. -/
theorem writeWrappers_worklist {methods : List Method} {p p' : Progress}
    (h : writeWrappers types options methods p = .ok p') :
    p'.worklist =
      (methods.map Work.wrapper).foldl (fun w work => work.perform types options w) p.worklist := by
  induction methods generalizing p with
  | nil =>
    cases h
    rfl
  | cons m rest ih =>
    rw [writeWrappers] at h
    cases hfault : (wrapperText types options m).fault with
    | some fault =>
      rw [hfault] at h
      cases h
    | none =>
      rw [hfault] at h
      rw [ih h, List.map_cons, List.foldl_cons, Work.perform, on_writeDraft]

/-- **With a limit of as many batches as there are, the loop is `resolve`.** -/
theorem resolve_of_drains {w last : Worklist} {batches : List (List DefId)}
    {outcome : Except SchemaFault Unit} (h : Drains types indentation w batches outcome last)
    {limit : Nat} (hlimit : batches.length ≤ limit) {p : Progress} (hp : p.worklist = w) :
    (resolve types indentation limit p).map Progress.worklist = outcome.map fun _ => last := by
  induction h generalizing limit p with
  | done w h =>
    subst hp
    have hpending : p.worklist.pending = [] := h
    have hlast : p.worklist.takeBatch.2 = p.worklist := by
      rw [Worklist.takeBatch, hpending, List.append_nil]
      exact congrArg (Worklist.mk p.worklist.resolved) hpending.symm
    have hok : resolve types indentation limit p = .ok p := by
      cases limit with
      | zero => rfl
      | succ limit => simp [resolve, h]
    rw [hok, hlast]
    rfl
  | failed w last fault h hpass =>
    subst hp
    obtain ⟨limit, rfl⟩ : ∃ n, limit = n + 1 := Nat.exists_eq_add_of_le' hlimit
    have hwritten := writeBatch_of_pass hpass
    rw [resolve_succ, if_neg fun hempty => h (List.isEmpty_iff.mp hempty)]
    cases hrun : writeBatch types indentation p.worklist.takeBatch.1
        { p with worklist := p.worklist.takeBatch.2 } with
    | error other =>
      rw [hrun] at hwritten
      cases hwritten
      rfl
    | ok p' =>
      rw [hrun] at hwritten
      cases hwritten
  | next w w' last batches outcome h hpass hrest ih =>
    subst hp
    obtain ⟨limit, rfl⟩ : ∃ n, limit = n + 1 :=
      Nat.exists_eq_add_of_le' (Nat.le_trans (Nat.succ_pos _) hlimit)
    have hwritten := writeBatch_of_pass hpass
    rw [resolve_succ, if_neg fun hempty => h (List.isEmpty_iff.mp hempty)]
    cases hrun : writeBatch types indentation p.worklist.takeBatch.1
        { p with worklist := p.worklist.takeBatch.2 } with
    | error other =>
      rw [hrun] at hwritten
      cases hwritten
    | ok p' =>
      rw [hrun] at hwritten
      exact ih (Nat.le_of_succ_le_succ hlimit) (Except.ok.inj hwritten)

/-- No batch is empty and nothing is handed out twice, so that there are no more batches than
    definitions. -/
theorem Drains.length_le {w last : Worklist} {batches : List (List DefId)}
    {outcome : Except SchemaFault Unit} (hw : w.Within types)
    (h : Drains types indentation w batches outcome last) : batches.length ≤ types.size := by
  have hflatten : batches.length ≤ batches.flatten.length := by
    have hne := h.ne_nil
    clear h
    induction batches with
    | nil => exact Nat.le_refl 0
    | cons batch rest ih =>
      rw [List.forall_mem_cons] at hne
      have hpos := List.length_pos_iff.mpr hne.1
      have hrest := ih hne.2
      rw [List.flatten_cons, List.length_append, List.length_cons]
      omega
  have hlast := (h.within hw).length_le
  rw [h.resolved, List.length_append] at hlast
  omega

/-- **The declarations are written to an end**, whatever the table and the methods are, and also
    behind writing that has failed. The loop, which counts nothing, has one course and it ends: it
    hands out definitions of the table only, each once at the most, so that no more batches come
    than the table has definitions. A limit as high as that takes nothing away from it, and neither
    does the bound on the search for cycles that an alias is declared with. The writing of a
    registry is the case of its wrappers and then the loop. -/
theorem draining_ends (r : Registry) (options : Options) (works : List Work) :
    (∃ batches outcome last,
      Drains r.types options.indentation (behind r.types options works) batches outcome last ∧
      (∀ batches' outcome' last',
        Drains r.types options.indentation (behind r.types options works) batches' outcome' last' →
          batches' = batches ∧ outcome' = outcome ∧ last' = last) ∧
      (∀ batch ∈ batches, batch ≠ []) ∧ batches.length ≤ r.types.size ∧
      last.resolved = (behind r.types options works).resolved ++ batches.flatten ∧
      last.resolved.Nodup ∧ (∀ id ∈ last.resolved, id < r.types.size) ∧
      ∀ (limit : Nat) (p : Progress), r.types.size ≤ limit →
        p.worklist = behind r.types options works →
          (resolve r.types options.indentation limit p).map Progress.worklist =
            outcome.map fun _ => last) ∧
      (∀ id fuel, r.types.size < fuel →
        r.types.walkAlias id fuel id [] = r.types.walkAlias id (r.types.size + 1) id []) ∧
      ∀ p, writeWrappers r.types options r.methods {} = .ok p →
        p.worklist = behind r.types options (r.methods.map .wrapper) := by
  refine ⟨?_, fun id fuel hfuel => ?_, fun p hp => writeWrappers_worklist hp⟩
  · have hw := within_behind r.types options works
    obtain ⟨batches, outcome, last, h⟩ := drains_of_within hw options.indentation
    have hlast := h.within hw
    refine ⟨batches, outcome, last, h, fun _ _ _ h' => h.unique h', h.ne_nil, h.length_le hw,
      h.resolved, (List.nodup_append.mp hlast.nodup).1, fun id hid => ?_,
      fun limit p hlimit hp => resolve_of_drains h (Nat.le_trans (h.length_le hw) hlimit) hp⟩
    obtain ⟨body, hbody⟩ := hlast.there id (List.mem_append_left _ hid)
    exact TypeTable.lt_size_of_get hbody
  · have hends := TypeTable.walkAlias_ends (.first r.types id) hfuel (Nat.lt_succ_self _)
    exact hends.same

/-- A registry with a struct that holds itself with an array of what it is given. -/
def spiral : Registry where
  types :=
    { slots := [
        .defined (.struct
          { name := "Spiral"
            generics := ["T"]
            fields := [
              { name := "value", ty := .generic "T" },
              { name := "inner", ty := .optional (.named 0 [.array (.generic "T")]) }] }),
        .defined (.struct { name := "TurnParameters" })] }
  methods := [
    { params := 1
      returns := .named 0 [.number]
      name := "turn"
      doc := none
      usesSession := false
      sessionOptional := false
      usesCredentials := false
      rateLimit := 0 }]

/-- The arguments grow without end, and the struct is declared once. -/
example : (generate spiral {}).map (fun b => b.declarations.map (·.1)) = .ok [1, 0] := rfl

end Limit

end WireContract.Bindings
