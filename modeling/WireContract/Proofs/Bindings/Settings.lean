import WireContract.Proofs.Bindings.Success

/-!
# Settings change the text and nothing else

The settings of client code are read while the text is being written: the indentation in every
line, the others in the wrappers. What a draft mentions and where it ends do not depend on them,
and nothing else decides what is declared next and which fault is met first. So a registry has one
outcome for all settings under which anything is written.

* `Draft.silent`: a draft without its text, and how it follows the ways in which drafts are put
  together;
* `declarationText_silent`, `wrapperText_silent`: without their text the blocks are the same for
  all settings;
* `writeWrappers_in_step`, `writeBatch_in_step`, `resolve_in_step`: two runs under different
  settings have the same worklist all along, or end with the same fault;
* `generate_in_step`: the outcome of the whole.
-/

namespace WireContract.Bindings

namespace Draft

/-! ## 1. Drafts without their text -/

/-- The draft without its text: what it mentions, and the fault that ended it. -/
def silent (d : Draft) : Draft := { d with text := "" }

@[simp] theorem silent_write (text : String) : (write text).silent = empty := rfl

@[simp] theorem silent_append (a b : Draft) : (a ++ b).silent = a.silent ++ b.silent := by
  cases h : a.fault with
  | some fault =>
    have hsilent : a.silent.fault = some fault := h
    rw [append_of_fault a b fault h, append_of_fault a.silent b.silent fault hsilent]
  | none => simp [append_def, append, silent, h]

theorem silent_concat {α : Type} {items : List α} {f g : α → Draft}
    (h : ∀ item ∈ items, (f item).silent = (g item).silent) :
    (concat (items.map f)).silent = (concat (items.map g)).silent := by
  induction items with
  | nil => rfl
  | cons item rest ih =>
    obtain ⟨hitem, hrest⟩ := List.forall_mem_cons.mp h
    simp only [List.map_cons, concat, silent_append, hitem, ih hrest]

theorem mentions_eq_of_silent {d d' : Draft} (h : d.silent = d'.silent) :
    d.mentions = d'.mentions := by
  change d.silent.mentions = d'.silent.mentions
  rw [h]

theorem fault_eq_of_silent {d d' : Draft} (h : d.silent = d'.silent) : d.fault = d'.fault := by
  change d.silent.fault = d'.silent.fault
  rw [h]

end Draft

open Draft

section Blocks

variable (types : TypeTable) (indentation indentation' : String) (options options' : Options)

/-! ## 2. Blocks -/

theorem interfaceText_silent (s : StructDef) :
    (interfaceText types indentation s).silent = (interfaceText types indentation' s).silent := by
  have hlines : (concat (s.fields.map (interfaceLine types indentation))).silent =
      (concat (s.fields.map (interfaceLine types indentation'))).silent :=
    silent_concat fun field _ => by simp [interfaceLine]
  simp only [interfaceText, silent_append]
  split <;> simp [hlines]

theorem enumerationText_silent (e : EnumDef) :
    (enumerationText indentation e).silent = (enumerationText indentation' e).silent := by
  have hlines : (concat (e.members.map (enumerationLine indentation))).silent =
      (concat (e.members.map (enumerationLine indentation'))).silent :=
    silent_concat fun m _ => by simp [enumerationLine]
  simp [enumerationText, hlines]

/-- **A declaration mentions the same and meets the same fault under any indentation.** -/
theorem declarationText_silent (id : DefId) :
    (declarationText types indentation id).silent =
      (declarationText types indentation' id).silent := by
  unfold declarationText
  split
  · rfl
  · exact interfaceText_silent types indentation indentation' _
  · exact enumerationText_silent indentation indentation' _
  · rfl

/-- **A wrapper mentions the same and meets the same fault under all settings.** -/
theorem wrapperText_silent (m : Method) :
    (wrapperText types options m).silent = (wrapperText types options' m).silent := by
  unfold wrapperText
  split
  · rfl
  · simp [wrapperBody]
  · rfl

end Blocks

/-! ## 3. Two runs -/

/-- Two runs are in step: they have met the same fault, or both go on with the same worklist. -/
def InStep (x x' : Except SchemaFault Progress) : Prop :=
  x.map Progress.worklist = x'.map Progress.worklist

namespace InStep

variable {x x' : Except SchemaFault Progress}

theorem ok {p p' : Progress} (h : p.worklist = p'.worklist) : InStep (.ok p) (.ok p') :=
  congrArg Except.ok h

theorem error (fault : SchemaFault) : InStep (.error fault) (.error fault) := rfl

/-- Runs in step go on in step. -/
theorem bind {f f' : Progress → Except SchemaFault Progress} (h : InStep x x')
    (hf : ∀ {p p'}, p.worklist = p'.worklist → InStep (f p) (f' p')) :
    InStep (x >>= f) (x' >>= f') := by
  cases x with
  | error fault =>
    cases x' with
    | error other =>
      cases h
      exact error fault
    | ok p' => cases h
  | ok p =>
    cases x' with
    | error fault => cases h
    | ok p' => exact hf (Except.ok.inj h)

/-- A fault of one run is that of the other. -/
theorem eq_error (h : InStep x x') {fault : SchemaFault} (hx : x = .error fault) :
    x' = .error fault := by
  subst hx
  cases x' with
  | error other =>
    cases h
    rfl
  | ok p' => cases h

end InStep

section Runs

variable {types : TypeTable} {options options' : Options} {indentation indentation' : String}
  {p p' : Progress}

theorem writeWrappers_in_step (h : p.worklist = p'.worklist) (methods : List Method) :
    InStep (writeWrappers types options methods p) (writeWrappers types options' methods p') := by
  induction methods generalizing p p' with
  | nil => exact .ok h
  | cons m rest ih =>
    have hsilent := wrapperText_silent types options options' m
    rw [writeWrappers, writeWrappers, fault_eq_of_silent hsilent]
    cases (wrapperText types options' m).fault with
    | some fault => exact .error fault
    | none => exact ih (by rw [h, mentions_eq_of_silent hsilent])

theorem writeBatch_in_step (h : p.worklist = p'.worklist) (ids : List DefId) :
    InStep (writeBatch types indentation ids p) (writeBatch types indentation' ids p') := by
  induction ids generalizing p p' with
  | nil => exact .ok h
  | cons id rest ih =>
    have hsilent := declarationText_silent types indentation indentation' id
    rw [writeBatch, writeBatch, fault_eq_of_silent hsilent]
    cases (declarationText types indentation' id).fault with
    | some fault => exact .error fault
    | none => exact ih (by rw [h, mentions_eq_of_silent hsilent])

theorem resolve_succ (limit : Nat) (p : Progress) :
    resolve types indentation (limit + 1) p =
      if p.worklist.takeBatch.1.isEmpty then .ok p
      else
        writeBatch types indentation p.worklist.takeBatch.1
            { p with worklist := p.worklist.takeBatch.2 } >>=
          resolve types indentation limit := by
  simp only [resolve]
  split
  · rfl
  · cases writeBatch types indentation p.worklist.takeBatch.1
        { p with worklist := p.worklist.takeBatch.2 } <;> rfl

/-- **Batch by batch two runs stay in step.** The induction is on the batches that may still be
    written. -/
theorem resolve_in_step (h : p.worklist = p'.worklist) (limit : Nat) :
    InStep (resolve types indentation limit p) (resolve types indentation' limit p') := by
  induction limit generalizing p p' with
  | zero => exact .ok h
  | succ limit ih =>
    rw [resolve_succ, resolve_succ, h]
    split
    · exact .ok h
    · refine InStep.bind (writeBatch_in_step ?_ _) ih
      rfl

end Runs

/-! ## 4. The outcome of the whole -/

section Whole

variable {r : Registry} {options : Options} {fault : SchemaFault}

theorem writeBlocks_eq_error_iff :
    writeBlocks r options = .error fault ↔
      (writeWrappers r.types options r.methods {} >>=
        resolve r.types options.indentation r.types.size) = .error fault := by
  have hwhole : writeBlocks r options = Progress.blocks <$>
      (writeWrappers r.types options r.methods {} >>=
        resolve r.types options.indentation r.types.size) := by
    simp only [writeBlocks, map_bind, bind_pure_comp]
  rw [hwhole]
  cases writeWrappers r.types options r.methods {} >>=
    resolve r.types options.indentation r.types.size with
  | error other => simp
  | ok p => simp

/-- **The fault under some settings is the fault under all.** -/
theorem writeBlocks_eq_error (h : writeBlocks r options = .error fault) (options' : Options) :
    writeBlocks r options' = .error fault := by
  have hstep : InStep
      (writeWrappers r.types options r.methods {} >>=
        resolve r.types options.indentation r.types.size)
      (writeWrappers r.types options' r.methods {} >>=
        resolve r.types options'.indentation r.types.size) :=
    (writeWrappers_in_step rfl r.methods).bind fun hwork => resolve_in_step hwork r.types.size
  exact writeBlocks_eq_error_iff.mpr (hstep.eq_error (writeBlocks_eq_error_iff.mp h))

end Whole

/-- The blocks of client code under some settings, if these definitions are declared in this
    order. -/
def blocksOf (r : Registry) (ids : List DefId) (options : Options) : Bindings :=
  { declarations := ids.map (declaration r.types options.indentation)
    wrappers := r.methods.map fun m => (wrapperText r.types options m).text }

/-- **A registry has one outcome for all settings that fit**: the same fault, or the same
    definitions in the same order, each with its text under the settings. -/
theorem generate_in_step (r : Registry) :
    (∃ fault, ∀ options, options.Fits → generate r options = .error (.schema fault)) ∨
      r.WellFormed ∧
        ∃ ids, ∀ options, options.Fits → generate r options = .ok (blocksOf r ids options) := by
  cases h : writeBlocks r {} with
  | error fault =>
    refine Or.inl ⟨fault, fun options hfits => ?_⟩
    rw [generate_of_fits hfits, writeBlocks_eq_error h]
    rfl
  | ok b =>
    have hb : generate r {} = .ok b := generate_eq_ok_iff.mpr ⟨by decide, h⟩
    refine Or.inr ⟨wellFormed_of_generate hb,
      wavesBefore r.mentions r.types.mentionsOf r.types.size, fun options hfits => ?_⟩
    exact generate_eq (isWritable_of_generate hb) hfits

end WireContract.Bindings
