import WireContract.Bindings.Generate
import WireContract.Proofs.Bindings.Completion

/-!
# The declarations of the client code

The worklist hands out the waves of discovery, one batch each, so that the declarations come out
in breadth-first order and every definition that the methods lead to is declared once.

* `discoverAll_eq`: what a worklist has after some discoveries;
* `writeWrappers_eq`, `writeBatch_eq`: what a row of blocks leaves behind if all come to their
  end, and `writeWrappers_completes`, `writeBatch_completes`: that they do if it succeeds;
* `progressAt`: the state of the writing in front of a wave; `writeBatch_wave`: one batch leads to
  the next; `resolve_eq`: all batches lead to the end;
* `isWritable_of_generate`, `generate_eq`: writing succeeds exactly if every block it comes to can
  be written;
* `declarations_eq`, `mem_declared_iff`, `generate_declares_waves`: what is declared, in which
  order, and with which text.
-/

namespace WireContract.Bindings

open Draft

/-! ## 1. The worklist -/

namespace Worklist

theorem discover_of_knows {w : Worklist} {id : DefId} (h : w.knows id = true) :
    (w.discover id).2 = w := by
  rw [discover, if_pos h]

theorem discover_of_not_knows {w : Worklist} {id : DefId} (h : ¬ w.knows id = true) :
    (w.discover id).2 = { w with pending := w.pending ++ [id] } := by
  rw [discover, if_neg h]

theorem knows_pending_append (w : Worklist) (id other : DefId) :
    knows { w with pending := w.pending ++ [id] } other = (w.knows other || other == id) := by
  have hself : [id].contains other = (other == id) := Bool.eq_iff_iff.mpr (by simp)
  rw [knows, List.contains_append, hself, ← Bool.or_assoc, knows]

/-- Discoveries put the first of every kind that is not known yet behind those that wait. -/
theorem discoverAll_eq (w : Worklist) (ids : List DefId) :
    w.discoverAll ids =
      { resolved := w.resolved
        pending := w.pending ++ (ids.filter fun id => !w.knows id).eraseDups } := by
  induction ids generalizing w with
  | nil => simp [discoverAll]
  | cons id rest ih =>
    have hstep : w.discoverAll (id :: rest) = (w.discover id).2.discoverAll rest := rfl
    rw [hstep, ih]
    by_cases hk : w.knows id = true
    · rw [discover_of_knows hk, List.filter_cons_of_neg (by simp [hk])]
    · have hfilter : (rest.filter fun other => !(w.knows other || other == id)) =
          (rest.filter fun other => !w.knows other).filter fun other => !other == id := by
        simp only [List.filter_filter, Bool.not_or, Bool.and_comm]
      rw [discover_of_not_knows hk, List.filter_cons_of_pos (by simp [hk]), List.eraseDups_cons]
      simp only [knows_pending_append, hfilter, List.append_assoc, List.singleton_append]

end Worklist

/-! ## 2. Rows of blocks -/

section Rows

variable {types : TypeTable} {options : Options} {indentation : String}

/-- The declaration of a definition, as it is kept. -/
def declaration (types : TypeTable) (indentation : String) (id : DefId) : DefId × String :=
  (id, (declarationText types indentation id).text)

/-- Wrappers that all come to their end are kept in order, and what they mention is discovered. -/
theorem writeWrappers_eq {methods : List Method} (p : Progress)
    (h : ∀ m ∈ methods, (wrapperText types options m).fault = none) :
    writeWrappers types options methods p =
      .ok { worklist := p.worklist.discoverAll (methods.flatMap Method.mentions)
            blocks := { p.blocks with
              wrappers := p.blocks.wrappers ++
                methods.map fun m => (wrapperText types options m).text } } := by
  induction methods generalizing p with
  | nil => simp [writeWrappers, Worklist.discoverAll]
  | cons m rest ih =>
    rw [List.forall_mem_cons] at h
    have hm := wrapperText_completes types options m
    have hmentions := hm.mentions (hm.fault_iff.mp h.1)
    simp only [writeWrappers, h.1]
    rw [ih _ h.2]
    simp [hmentions, Worklist.discoverAll, List.foldl_append]

theorem writeWrappers_completes {methods : List Method} {p p' : Progress}
    (h : writeWrappers types options methods p = .ok p') :
    ∀ m ∈ methods, (wrapperText types options m).fault = none := by
  induction methods generalizing p with
  | nil => exact fun m hm => absurd hm List.not_mem_nil
  | cons m rest ih =>
    simp only [writeWrappers] at h
    split at h
    · cases h
    · rename_i hm
      exact List.forall_mem_cons.mpr ⟨hm, ih h⟩

/-- Declarations that all come to their end are kept in order, and what they mention is
    discovered. -/
theorem writeBatch_eq {ids : List DefId} (p : Progress)
    (h : ∀ id ∈ ids, (declarationText types indentation id).fault = none) :
    writeBatch types indentation ids p =
      .ok { worklist := p.worklist.discoverAll (ids.flatMap types.mentionsOf)
            blocks := { p.blocks with
              declarations := p.blocks.declarations ++
                ids.map (declaration types indentation) } } := by
  induction ids generalizing p with
  | nil => simp [writeBatch, Worklist.discoverAll]
  | cons id rest ih =>
    rw [List.forall_mem_cons] at h
    have hid := declarationText_completes types indentation id
    have hmentions := hid.mentions (hid.fault_iff.mp h.1)
    simp only [writeBatch, h.1]
    rw [ih _ h.2]
    simp [hmentions, declaration, Worklist.discoverAll, List.foldl_append]

theorem writeBatch_completes {ids : List DefId} {p p' : Progress}
    (h : writeBatch types indentation ids p = .ok p') :
    ∀ id ∈ ids, (declarationText types indentation id).fault = none := by
  induction ids generalizing p with
  | nil => exact fun id hid => absurd hid List.not_mem_nil
  | cons id rest ih =>
    simp only [writeBatch] at h
    split at h
    · cases h
    · rename_i hid
      exact List.forall_mem_cons.mpr ⟨hid, ih h⟩

end Rows

/-! ## 3. Batches and waves -/

/-- What has to hold of a registry for its client code to be written to the end: of every method,
    and of every definition that the methods lead to. The settings have no say in it. -/
structure IsWritable (r : Registry) : Prop where
  methods : ∀ m ∈ r.methods, (∃ s, r.types.get m.params = .ok (.struct s)) ∧
    ∀ ty ∈ m.expressions, ty.IsSound r.types
  definitions : ∀ id, r.Reaches id →
    (∃ body, r.types.get id = .ok body ∧ body.IsSound r.types) ∧ r.types.aliasCycle id = .ok none

/-- What is written when a wave is about to be declared: all wrappers, and the declarations of the
    waves in front of it. -/
def progressAt (r : Registry) (options : Options) (k : Nat) : Progress :=
  { worklist :=
      { resolved := wavesBefore r.mentions r.types.mentionsOf k
        pending := r.wave k }
    blocks :=
      { declarations := (wavesBefore r.mentions r.types.mentionsOf k).map
          (declaration r.types options.indentation)
        wrappers := r.methods.map fun m => (wrapperText r.types options m).text } }

section Run

variable {r : Registry} {options : Options}

/-- The wrappers mention the first wave. -/
theorem writeWrappers_start (h : ∀ m ∈ r.methods, (wrapperText r.types options m).fault = none) :
    writeWrappers r.types options r.methods {} = .ok (progressAt r options 0) := by
  have hnew : r.mentions.filter (fun id => !Worklist.knows {} id) = r.mentions :=
    List.filter_eq_self.mpr fun _ _ => rfl
  have hwork : Worklist.discoverAll {} r.mentions = (progressAt r options 0).worklist := by
    rw [Worklist.discoverAll_eq, hnew]
    simp only [progressAt, Registry.wave, wave, wavesBefore, List.nil_append]
  rw [writeWrappers_eq {} h]
  change Except.ok (Progress.mk (Worklist.discoverAll {} r.mentions) _) = _
  rw [hwork]
  simp only [progressAt, wavesBefore, List.map_nil, List.nil_append]

/-- **One batch takes the writing from a wave to the next.** -/
theorem writeBatch_wave {k : Nat}
    (h : ∀ id ∈ r.wave k, (declarationText r.types options.indentation id).fault = none) :
    writeBatch r.types options.indentation (r.wave k)
        { progressAt r options k with
          worklist := (progressAt r options k).worklist.takeBatch.2 } =
      .ok (progressAt r options (k + 1)) := by
  have hwork : ((progressAt r options k).worklist.takeBatch.2).discoverAll
      ((r.wave k).flatMap r.types.mentionsOf) = (progressAt r options (k + 1)).worklist := by
    rw [Worklist.discoverAll_eq, eraseDups_filter]
    simp only [progressAt, Worklist.takeBatch, Worklist.knows, Registry.wave, wave_succ,
      wavesBefore_succ, List.removeAll, List.contains_nil, Bool.or_false, List.nil_append,
      List.elem_eq_contains]
  rw [writeBatch_eq _ h, hwork]
  simp only [progressAt, wavesBefore_succ, List.map_append, Registry.wave]

/-- Behind an empty wave nothing changes any more. -/
theorem progressAt_eq_of_le {k n : Nat} (h : r.wave k = []) (hkn : k ≤ n) :
    progressAt r options n = progressAt r options k := by
  have hn : r.wave n = [] := wave_eq_nil_of_le h hkn
  rw [progressAt, progressAt, h, hn, wavesBefore_eq_of_le h hkn]

theorem resolve_of_nil {k : Nat} (h : r.wave k = []) (limit : Nat) :
    resolve r.types options.indentation limit (progressAt r options k) =
      .ok (progressAt r options k) := by
  cases limit with
  | zero => rfl
  | succ limit =>
    have hbatch : (progressAt r options k).worklist.takeBatch.1 = [] := h
    simp only [resolve, hbatch, List.isEmpty_nil, if_true]

theorem resolve_of_ne_nil {k : Nat} (h : r.wave k ≠ []) (limit : Nat) :
    resolve r.types options.indentation (limit + 1) (progressAt r options k) =
      writeBatch r.types options.indentation (r.wave k)
          { progressAt r options k with
            worklist := (progressAt r options k).worklist.takeBatch.2 } >>=
        resolve r.types options.indentation limit := by
  have hbatch : (progressAt r options k).worklist.takeBatch.1 = r.wave k := rfl
  have hfull : ¬ (r.wave k).isEmpty = true := fun he => h (List.isEmpty_iff.mp he)
  simp only [resolve, hbatch, if_neg hfull]
  cases writeBatch r.types options.indentation (r.wave k) _ <;> rfl

/-- **From one wave to the end.** The induction is on the batches that may still be written; where
    the waves end earlier, the state is that behind any later one. -/
theorem resolve_eq {limit k : Nat}
    (h : ∀ j, k ≤ j → j < k + limit → ∀ id ∈ r.wave j,
      (declarationText r.types options.indentation id).fault = none) :
    resolve r.types options.indentation limit (progressAt r options k) =
      .ok (progressAt r options (k + limit)) := by
  induction limit generalizing k with
  | zero => rfl
  | succ limit ih =>
    by_cases hnil : r.wave k = []
    · rw [resolve_of_nil hnil, progressAt_eq_of_le hnil (Nat.le_add_right k _)]
    · rw [resolve_of_ne_nil hnil, writeBatch_wave (h k (Nat.le_refl k) (by omega))]
      have hrest := ih (k := k + 1) fun j hkj hj => h j (by omega) (by omega)
      rw [Nat.add_right_comm] at hrest
      exact hrest

/-- If the batches come to their end, so does every declaration of the waves they stand for. -/
theorem resolve_completes {limit k : Nat} {p : Progress}
    (h : resolve r.types options.indentation limit (progressAt r options k) = .ok p) :
    ∀ j, k ≤ j → j < k + limit → ∀ id ∈ r.wave j,
      (declarationText r.types options.indentation id).fault = none := by
  induction limit generalizing k with
  | zero => exact fun j hkj hj => absurd hj (by omega)
  | succ limit ih =>
    intro j hkj hj id hid
    have hne : r.wave k ≠ [] := by
      intro hnil
      have hj : r.wave j = [] := wave_eq_nil_of_le hnil hkj
      rw [hj] at hid
      exact absurd hid List.not_mem_nil
    rw [resolve_of_ne_nil hne] at h
    cases hbatch : writeBatch r.types options.indentation (r.wave k)
        { progressAt r options k with
          worklist := (progressAt r options k).worklist.takeBatch.2 } with
    | error fault =>
      rw [hbatch] at h
      cases h
    | ok q =>
      have hwave := writeBatch_completes hbatch
      rw [writeBatch_wave hwave] at h
      by_cases hjk : j = k
      · exact hwave id (hjk ▸ hid)
      · exact ih h j (by omega) (by omega) id hid

end Run

/-! ## 4. The whole -/

section Whole

variable {r : Registry} {options : Options}

theorem wrapperText_fault_iff {m : Method} :
    (wrapperText r.types options m).fault = none ↔
      (∃ s, r.types.get m.params = .ok (.struct s)) ∧ ∀ ty ∈ m.expressions, ty.IsSound r.types :=
  (wrapperText_completes r.types options m).fault_iff

theorem declarationText_fault_iff {id : DefId} :
    (declarationText r.types options.indentation id).fault = none ↔
      (∃ body, r.types.get id = .ok body ∧ body.IsSound r.types) ∧
        r.types.aliasCycle id = .ok none :=
  (declarationText_completes r.types options.indentation id).fault_iff

/-- What a method refers to is there, if its wrapper comes to its end. -/
theorem get_of_mem_method_mentions {m : Method} {id : DefId}
    (h : (wrapperText r.types options m).fault = none) (hid : id ∈ m.mentions) :
    ∃ body, r.types.get id = .ok body := by
  obtain ⟨-, hsound⟩ := wrapperText_fault_iff.mp h
  rw [m.mentions_eq_flatMap] at hid
  obtain ⟨ty, hty, hid⟩ := List.mem_flatMap.mp hid
  exact (hsound ty hty).get_of_mem_mentions hid

/-- What a definition refers to is there, if its declaration comes to its end. -/
theorem get_of_mem_mentionsOf {other id : DefId}
    (h : (declarationText r.types options.indentation other).fault = none)
    (hid : id ∈ r.types.mentionsOf other) : ∃ body, r.types.get id = .ok body := by
  obtain ⟨⟨body, hbody, hsound⟩, -⟩ := declarationText_fault_iff.mp h
  rw [TypeTable.mentionsOf_of_get hbody] at hid
  exact hsound.get_of_mem_mentions hid

/-- **The waves end with the table.** As long as the blocks come to their end, every wave is of
    definitions that are there, and none is in two waves. -/
theorem wave_size_eq_nil (hm : ∀ m ∈ r.methods, (wrapperText r.types options m).fault = none)
    (hd : ∀ k < r.types.size, ∀ id ∈ r.wave k,
      (declarationText r.types options.indentation id).fault = none) :
    r.wave r.types.size = [] := by
  refine wave_eq_nil_of_lt (Nat.le_refl r.types.size) fun id hid => ?_
  obtain ⟨k, hk, hid⟩ := mem_wavesBefore_iff.mp hid
  have hget : ∃ body, r.types.get id = .ok body := by
    cases k with
    | zero =>
      rw [wave, List.mem_eraseDups] at hid
      obtain ⟨m, hmem, hid⟩ := List.mem_flatMap.mp hid
      exact get_of_mem_method_mentions (hm m hmem) hid
    | succ k =>
      obtain ⟨⟨other, hother, hid⟩, -⟩ := mem_wave_succ_iff.mp hid
      exact get_of_mem_mentionsOf (hd k (by omega) other hother) hid
  obtain ⟨body, hbody⟩ := hget
  exact TypeTable.lt_size_of_get hbody

/-- The blocks of a registry that is written to the end. -/
theorem generate_completes {b : Bindings} (h : generate r options = .ok b) :
    (∀ m ∈ r.methods, (wrapperText r.types options m).fault = none) ∧
      (∀ k < r.types.size, ∀ id ∈ r.wave k,
        (declarationText r.types options.indentation id).fault = none) ∧
      b = (progressAt r options r.types.size).blocks := by
  obtain ⟨-, h⟩ := generate_eq_ok_iff.mp h
  rw [writeBlocks] at h
  cases hw : writeWrappers r.types options r.methods {} with
  | error fault => simp [hw, bind, Except.bind] at h
  | ok p =>
    have hmethods := writeWrappers_completes hw
    obtain rfl := Except.ok.inj (hw.symm.trans (writeWrappers_start hmethods))
    cases hr : resolve r.types options.indentation r.types.size (progressAt r options 0) with
    | error fault => simp [hw, hr, bind, Except.bind] at h
    | ok q =>
      have hdefinitions := resolve_completes hr
      have hwaves : ∀ k < r.types.size, ∀ id ∈ r.wave k,
          (declarationText r.types options.indentation id).fault = none :=
        fun k hk => hdefinitions k (Nat.zero_le k) (by omega)
      have hq := hr.symm.trans (resolve_eq hdefinitions)
      simp only [hw, hr, bind, Except.bind, pure, Except.pure, Except.ok.injEq] at h
      rw [Nat.zero_add] at hq
      exact ⟨hmethods, hwaves, by rw [← h, Except.ok.inj hq]⟩

/-- **What is written to the end is writable**, also what stands in later waves: there are none. -/
theorem isWritable_of_generate {b : Bindings} (h : generate r options = .ok b) :
    IsWritable r := by
  obtain ⟨hm, hd, -⟩ := generate_completes h
  refine ⟨fun m hmem => wrapperText_fault_iff.mp (hm m hmem), fun id hid => ?_⟩
  obtain ⟨k, hk, hid⟩ :=
    mem_wavesBefore_iff.mp ((mem_wavesBefore_iff_reached (wave_size_eq_nil hm hd)).mpr hid)
  exact declarationText_fault_iff.mp (hd k hk id hid)

/-- **What is writable is written to the end**, under options that fit. -/
theorem generate_eq (h : IsWritable r) (hfits : options.Fits) :
    generate r options = .ok (progressAt r options r.types.size).blocks := by
  have hm : ∀ m ∈ r.methods, (wrapperText r.types options m).fault = none :=
    fun m hmem => wrapperText_fault_iff.mpr (h.methods m hmem)
  have hd : ∀ k, 0 ≤ k → k < 0 + r.types.size → ∀ id ∈ r.wave k,
      (declarationText r.types options.indentation id).fault = none :=
    fun k _ _ id hid => declarationText_fault_iff.mpr (h.definitions id (reached_of_mem_wave hid))
  refine generate_eq_ok_iff.mpr ⟨hfits, ?_⟩
  simp only [writeBlocks, writeWrappers_start hm, resolve_eq hd, Nat.zero_add, bind, Except.bind,
    pure, Except.pure]

/-- Behind as many waves as the table has definitions there are no more. -/
theorem wave_size_of_generate {b : Bindings} (h : generate r options = .ok b) :
    r.wave r.types.size = [] := by
  obtain ⟨hm, hd, -⟩ := generate_completes h
  exact wave_size_eq_nil hm hd

theorem declarations_eq {b : Bindings} (h : generate r options = .ok b) {n : Nat}
    (hn : r.types.size ≤ n) :
    b.declarations =
      ((List.range n).flatMap r.wave).map (declaration r.types options.indentation) := by
  have hlist : (List.range n).flatMap r.wave =
      wavesBefore r.mentions r.types.mentionsOf r.types.size := by
    rw [← wavesBefore_eq_of_le (wave_size_of_generate h) hn, wavesBefore_eq_flatMap]
    rfl
  obtain ⟨-, -, hb⟩ := generate_completes h
  rw [hb, hlist]
  rfl

theorem declared_eq {b : Bindings} (h : generate r options = .ok b) :
    b.declarations.map (·.1) = wavesBefore r.mentions r.types.mentionsOf r.types.size := by
  obtain ⟨-, -, hb⟩ := generate_completes h
  rw [hb]
  simp only [progressAt, List.map_map]
  exact List.map_id _

theorem nodup_declared {b : Bindings} (h : generate r options = .ok b) :
    (b.declarations.map (·.1)).Nodup := by
  rw [declared_eq h]
  exact nodup_wavesBefore _

theorem mem_declared_iff {b : Bindings} (h : generate r options = .ok b) {id : DefId} :
    id ∈ b.declarations.map (·.1) ↔ r.Reaches id := by
  rw [declared_eq h]
  exact mem_wavesBefore_iff_reached (wave_size_of_generate h)

/-- **The declarations come out in breadth-first order of discovery**, each with the text of its
    definition: wave behind wave, and no wave is behind the size of the table. So exactly the
    definitions that the methods lead to are declared, each once. -/
theorem generate_declares_waves {b : Bindings} (h : generate r options = .ok b) :
    (∀ n, r.types.size ≤ n →
      b.declarations =
        ((List.range n).flatMap r.wave).map (declaration r.types options.indentation)) ∧
    (∀ k, r.types.size ≤ k → r.wave k = []) ∧
    (b.declarations.map (·.1)).Nodup ∧
    ∀ id, id ∈ b.declarations.map (·.1) ↔ r.Reaches id := by
  refine ⟨fun n hn => declarations_eq h hn, fun k hk => ?_, nodup_declared h,
    fun id => mem_declared_iff h⟩
  exact wave_eq_nil_of_le (wave_size_of_generate h) hk

/-- A registry with one method, whose result is a page of trees. Trees hold trees, pages lead to
    pages, and nothing leads to the leaf, which is not defined. -/
def forest : Registry where
  types :=
    { slots := [
        .defined (.struct
          { name := "Tree"
            fields := [
              { name := "id", ty := .reference 1 },
              { name := "children", ty := .array (.reference 0) }] }),
        .defined (.alias { name := "TreeId", ty := .number }),
        .reserved "Leaf",
        .defined (.struct
          { name := "Page"
            generics := ["T"]
            fields := [
              { name := "items", ty := .array (.generic "T") },
              { name := "next", ty := .optional (.named 3 [.generic "T"]) }] }),
        .defined (.struct
          { name := "PlantParameters"
            fields := [{ name := "root", ty := .reference 0 }] })] }
  methods := [
    { params := 4
      returns := .named 3 [.reference 0]
      name := "plant"
      doc := none
      usesSession := false
      sessionOptional := false
      usesCredentials := false
      rateLimit := 0 }]

theorem generate_declares_waves_forest :
    ∃ b, generate forest {} = .ok b ∧ b.declarations.map (·.1) = [4, 3, 0, 1] ∧
      ∀ id, id ∈ [4, 3, 0, 1] ↔ forest.Reaches id := by
  obtain ⟨b, hb⟩ : ∃ b, generate forest {} = .ok b := ⟨_, rfl⟩
  obtain ⟨hwaves, -, -, hreaches⟩ := generate_declares_waves hb
  have hids : b.declarations.map (·.1) = [4, 3, 0, 1] := by
    rw [hwaves 5 (by decide), List.map_map]
    decide
  rw [hids] at hreaches
  exact ⟨b, hb, hids, hreaches⟩

end Whole

end WireContract.Bindings
