import WireContract.Proofs.Command.Prediction
import WireContract.Proofs.Command.Writing

/-!
# A command that fails changes nothing

Whatever can fail comes before the first thing that is printed or written: inputs and settings are
read and client code is made of them first, the output file comes last, and the summary that is
printed line by line has no line that could fail. A command that succeeds with an ordinary file for
its text leaves the text there and prints nothing. The null file is not such a file, and of the
other special ones nothing is said here.

* `draft`, `deliver`: the text that `generate` makes, and what is done with it;
* `generate_fails_or_delivers`: the text is made and delivered, or the tree stays as it was;
* `summaryLines`, `checkPrints`: the summary as it is printed, one line after another;
* `failing_command_changes_nothing`: every command on every tree, and
  `null_file_holds_no_text`: not every file that is written holds the text.
-/

namespace WireContract.Command

/-! ## 1. `generate` -/

section Drafts

variable {m : Type → Type} [Monad m] (files : Files m)

/-- The text that `generate` makes of its inputs. -/
def draft (g : Generation) : ExceptT Fault m String := do
  let (registry, options) ← load files g.inputs
  let options ← g.overrides.apply files options
  let bindings ← orFail .ofFailure (Bindings.generate registry options)
  return bindings.text options

/-- What is done with the text: it is printed, or written into a file. -/
def deliver (out : Option String) (text : String) : ExceptT Fault m Outcome :=
  match out with
  | none => pure (.done text "")
  | some path => do
    writeOutput files path text
    return .done "" ""

theorem generateBindings_eq [LawfulMonad m] (g : Generation) :
    generateBindings files g = draft files g >>= deliver files g.out := by
  simp only [generateBindings, draft, bind_assoc, pure_bind]
  rfl

/-- The text is the same wherever it goes. -/
theorem draft_out (g : Generation) (out : Option String) :
    draft files { g with out := out } = draft files g := rfl

end Drafts

theorem draft_keeps {β : Type} {view : FileTree → β} (g : Generation) :
    Keeps view (draft FileTree.files g).run := by
  unfold draft
  refine Keeps.andThen (load_keeps g.inputs) fun loaded => ?_
  refine Keeps.andThen (apply_keeps g.overrides loaded.2) fun options => ?_
  exact Keeps.andThen (orFail_keeps _ _) fun bindings => .ok _

theorem run_generateBindings_of_draft {g : Generation} {t t' : FileTree} {text : String}
    (h : (draft FileTree.files g).run.run t = (.ok text, t')) :
    (generateBindings FileTree.files g).run.run t =
      (deliver FileTree.files g.out text).run.run t' := by
  rw [generateBindings_eq]
  exact run_andThen_of_ok h

/-- A command that is not idle ends as its work does. -/
theorem run_generate_of_not_idle {g : Generation} (hidle : g.idle = false) {t t' : FileTree}
    {result : Except Fault Outcome}
    (h : (generateBindings FileTree.files g).run.run t = (result, t')) :
    ((Invocation.generate g).run FileTree.files).run t = (.ofResult result, t') := by
  simp only [Invocation.run, hidle, Bool.false_eq_true, if_false, StateT.run_bind, h]
  cases result <;> rfl

/-- **`generate` fails and leaves all files, or its text is delivered**: printed if no file is named
    for it, and else written into that file. -/
theorem generate_fails_or_delivers {g : Generation} (hidle : g.idle = false) (t : FileTree) :
    (∃ fault t', ((Invocation.generate g).run FileTree.files).run t = (.failed fault, t') ∧
        t'.contents = t.contents) ∨
      ∃ text, ((Invocation.generate { g with out := none }).run FileTree.files).run t =
          (.done text "", t) ∧
        (g.out = none ∨ ∃ path t' l, g.out = some path ∧
          ((Invocation.generate g).run FileTree.files).run t = (.done "" "", t') ∧
            FileTree.Receives t t' path text l) := by
  obtain ⟨result, hdraft⟩ := Keeps.exists_run_eq (draft_keeps g) t
  cases result with
  | error fault =>
    have hrun : (generateBindings FileTree.files g).run.run t = (.error fault, t) := by
      rw [generateBindings_eq]
      exact run_andThen_of_error hdraft
    exact .inl ⟨fault, t, run_generate_of_not_idle hidle hrun, rfl⟩
  | ok text =>
    -- the text does not depend on where it goes, so that it would have been printed
    have hprints : ((Invocation.generate { g with out := none }).run FileTree.files).run t =
        (.done text "", t) := by
      rw [← draft_out FileTree.files g none] at hdraft
      have hrun := run_generateBindings_of_draft hdraft
      exact run_generate_of_not_idle (g := { g with out := none }) hidle hrun
    have hrun := run_generateBindings_of_draft hdraft
    cases hout : g.out with
    | none => exact .inr ⟨text, hprints, .inl rfl⟩
    | some path =>
      rw [hout, deliver] at hrun
      rcases writeOutput_fails_or_delivers path text t with
        ⟨fault, t', hfails, hcontents⟩ | ⟨t', l, hwrites, hfile⟩
      · rw [run_andThen_of_error hfails] at hrun
        exact .inl ⟨fault, t', run_generate_of_not_idle hidle hrun, hcontents⟩
      · rw [run_andThen_of_ok hwrites] at hrun
        have hgenerate := run_generate_of_not_idle hidle hrun
        exact .inr ⟨text, hprints, .inr ⟨path, t', l, rfl, hgenerate, hfile⟩⟩

/-! ## 2. `check` -/

/-- The summary as it is printed, line by line: what has been printed when the printing ends, and
    the fault that it ends at, if it does not reach the last method. -/
def summaryLines (types : TypeTable) : List Method → String × Option SchemaFault
  | [] => ("", none)
  | method :: rest =>
    match types.name method.params with
    | .error fault => ("", some fault)
    | .ok params =>
      (summaryLine method params ++ (summaryLines types rest).1, (summaryLines types rest).2)

/-- A summary that fails nowhere is printed as a whole. -/
theorem summaryLines_of_summary {types : TypeTable} {methods : List Method} {lines : String}
    (h : summary types methods = .ok lines) : summaryLines types methods = (lines, none) := by
  induction methods generalizing lines with
  | nil =>
    obtain rfl := Except.ok.inj h
    rfl
  | cons method rest ih =>
    unfold summary at h
    cases hname : types.name method.params with
    | error fault =>
      rw [hname] at h
      cases h
    | ok params =>
      cases hrest : summary types rest with
      | error fault =>
        rw [hname, hrest] at h
        cases h
      | ok more =>
        rw [hname, hrest] at h
        obtain rfl := Except.ok.inj h
        rw [summaryLines, hname, ih hrest]

/-- What `check` prints of inputs that are loaded, line by line, whether or not it fails then. -/
def linesOf (loaded : Registry × Bindings.Options) : String :=
  match Bindings.generate loaded.1 loaded.2 with
  | .error _ => ""
  | .ok _ => (summaryLines loaded.1.types loaded.1.methods).1

/-- What `check` has printed when it ends. -/
def checkPrints {m : Type → Type} [Monad m] (files : Files m) (inputs : List String) : m String :=
  do
    match ← (load files inputs).run with
    | .error _ => return ""
    | .ok loaded => return linesOf loaded

/-- **The summary does not fail once a line of it is printed**: what has been printed when `check`
    ends is the output of its outcome. -/
theorem linesOf_eq_output (loaded : Registry × Bindings.Options) :
    linesOf loaded = (Outcome.ofResult (checked loaded)).output := by
  unfold linesOf checked
  cases hgenerate : Bindings.generate loaded.1 loaded.2 with
  | error failure => rfl
  | ok bindings =>
    -- code is generated for methods that have their parameters only, so that each has its line
    have hparameters := (Bindings.wellFormed_of_generate hgenerate).parameters
    obtain ⟨lines, hlines⟩ := exists_summary hparameters
    rw [hlines, summaryLines_of_summary hlines]
    rfl

theorem Outcome.output_of_fails {outcome : Outcome} (h : outcome.status ≠ 0) :
    outcome.output = "" := by
  cases outcome with
  | unusable => rfl
  | help => exact absurd rfl h
  | idle => rfl
  | done output notice => exact absurd rfl h
  | failed fault => rfl

/-- `check` leaves the tree, and has printed its output. -/
theorem check_prints_output (inputs : List String) (t : FileTree) :
    ∃ outcome, ((Invocation.check inputs).run FileTree.files).run t = (outcome, t) ∧
      (checkPrints FileTree.files inputs).run t = (outcome.output, t) := by
  obtain ⟨result, hload⟩ := Keeps.exists_run_eq (load_keeps inputs) t
  have hrun : (checkInputs FileTree.files inputs).run.run t = (result.bind checked, t) := by
    rw [run_checkInputs, StateT.run_map, hload]
    rfl
  refine ⟨.ofResult (result.bind checked), ?_, ?_⟩
  · simp only [Invocation.run, StateT.run_bind, hrun]
    cases result.bind checked <;> rfl
  · rw [checkPrints, StateT.run_bind, hload]
    cases result with
    | error fault => rfl
    | ok loaded => exact congrArg (·, t) (linesOf_eq_output loaded)

/-! ## 3. All commands -/

/-- A command that fails leaves all files. -/
theorem contents_of_fails {invocation : Invocation} {t t' : FileTree} {outcome : Outcome}
    (hrun : (invocation.run FileTree.files).run t = (outcome, t')) (hfails : outcome.status ≠ 0) :
    t'.contents = t.contents := by
  cases invocation with
  | generate g =>
    cases hidle : g.idle with
    | true =>
      simp only [Invocation.run, hidle, if_true] at hrun
      obtain ⟨-, rfl⟩ := Prod.mk.inj hrun
      rfl
    | false =>
      rcases generate_fails_or_delivers hidle t with
        ⟨fault, _, hfault, hcontents⟩ | ⟨text, hprints, hout | ⟨_, _, _, _, hwrites, _⟩⟩
      · obtain ⟨-, rfl⟩ := Prod.mk.inj (hrun.symm.trans hfault)
        exact hcontents
      · have hsame : { g with out := none } = g := by rw [← hout]
        rw [hsame] at hprints
        obtain ⟨-, rfl⟩ := Prod.mk.inj (hrun.symm.trans hprints)
        rfl
      · obtain ⟨rfl, -⟩ := Prod.mk.inj (hrun.symm.trans hwrites)
        exact absurd rfl hfails
  | check inputs =>
    obtain ⟨_, hcheck, -⟩ := check_prints_output inputs t
    obtain ⟨-, rfl⟩ := Prod.mk.inj (hrun.symm.trans hcheck)
    rfl
  | help =>
    obtain ⟨-, rfl⟩ := Prod.mk.inj hrun
    rfl

/-- `generate` that succeeds with a file for its text writes it there, and prints nothing. -/
theorem receives_of_succeeds {g : Generation} {path : String} {t t' : FileTree} {outcome : Outcome}
    (hout : g.out = some path) (hidle : g.idle = false)
    (hrun : ((Invocation.generate g).run FileTree.files).run t = (outcome, t'))
    (hsucceeds : outcome.status = 0) :
    outcome.output = "" ∧ ∃ text l,
      ((Invocation.generate { g with out := none }).run FileTree.files).run t =
          (.done text "", t) ∧
        FileTree.Receives t t' path text l := by
  rcases generate_fails_or_delivers hidle t with
    ⟨fault, _, hfault, -⟩ | ⟨text, hprints, hnone | ⟨_, _, l, hpath, hwrites, hfile⟩⟩
  · obtain ⟨rfl, -⟩ := Prod.mk.inj (hrun.symm.trans hfault)
    cases fault <;> cases hsucceeds
  · cases hnone.symm.trans hout
  · obtain ⟨rfl, rfl⟩ := Prod.mk.inj (hrun.symm.trans hwrites)
    obtain rfl := Option.some.inj (hpath.symm.trans hout)
    exact ⟨rfl, text, l, hprints, hfile⟩

/-- The tree that a command line leaves. -/
def FileTree.after (t : FileTree) (words : List String) : FileTree :=
  ((run FileTree.files words).run t).2

/-- **A command that fails changes nothing.** On every tree of files, a command that does not end
    with status 0 has printed nothing on the standard output and leaves all files with what they
    hold; `check` has printed no line then either, although it prints its summary line by line. And
    `generate` with a file for its text, if it does anything and succeeds, has a text that it would
    print without one, and writes it. If the path leads to an ordinary file, that file holds the
    text then, no other one is changed and nothing is printed. If it leads to the null file, nothing
    is printed, no file is changed, and nothing can be read there. -/
theorem failing_command_changes_nothing (t : FileTree) {words : List String}
    {invocation : Invocation} (hwords : Invocation.ofWords words = some invocation) :
    let outcome := t.outcome words
    let after := t.after words
    (outcome.status ≠ 0 → outcome.output = "" ∧ after.contents = t.contents) ∧
      (∀ g path, invocation = .generate g → g.out = some path → g.idle = false →
        outcome.status = 0 → ∃ text l,
          ((Invocation.generate { g with out := none }).run FileTree.files).run t =
            (.done text "", t) ∧
          after.follow path (Path.steps path) = .ok l ∧
          (isSpecial l = false →
            outcome.output = "" ∧ FileTree.Writes t after path text l) ∧
          (l = nullFile →
            outcome.output = "" ∧ after.contents = t.contents ∧ after.read path = .ok [])) ∧
      ∀ inputs, invocation = .check inputs →
        ((checkPrints FileTree.files inputs).run t).1 = outcome.output := by
  have hcommand : run FileTree.files words = invocation.run FileTree.files := by rw [run, hwords]
  have hrun : (invocation.run FileTree.files).run t = (t.outcome words, t.after words) := by
    rw [← hcommand]
    rfl
  refine ⟨fun hfails => ⟨Outcome.output_of_fails hfails, contents_of_fails hrun hfails⟩, ?_, ?_⟩
  · rintro g path rfl hout hidle hsucceeds
    obtain ⟨hsilent, text, l, hprints, hfile⟩ := receives_of_succeeds hout hidle hrun hsucceeds
    refine ⟨text, l, hprints, hfile.follow_eq, fun hordinary => ⟨hsilent, hfile.writes hordinary⟩,
      ?_⟩
    rintro rfl
    exact ⟨hsilent, hfile.null⟩
  · rintro inputs rfl
    obtain ⟨_, hcheck, hprints⟩ := check_prints_output inputs t
    rw [hprints, ← (Prod.mk.inj (hrun.symm.trans hcheck)).1]

/-- No text is made of the ring; that of the key is written into a directory that is made for it. -/
theorem failing_command_changes_nothing_gates :
    let failing := ["generate", "-i", "ring.json", "-o", "made/gate.ts"]
    let writing := ["generate", "-i", "key.json", "-o", "made/gate.ts"]
    (gates.outcome failing).status = 1 ∧ (gates.outcome failing).output = "" ∧
      (gates.after failing).contents = gates.contents ∧
      (gates.outcome writing).status = 0 ∧ (gates.outcome writing).output = "" ∧
      ∃ text l, ((Invocation.generate { inputs := ["key.json"] }).run FileTree.files).run gates =
          (.done text "", gates) ∧
        FileTree.Writes gates (gates.after writing) "made/gate.ts" text l := by
  intro failing writing
  have hfailing : Invocation.ofWords failing =
      some (.generate { inputs := ["ring.json"], out := some "made/gate.ts" }) := by decide
  have hwriting : Invocation.ofWords writing =
      some (.generate { inputs := ["key.json"], out := some "made/gate.ts" }) := by decide
  have hfails : (gates.outcome failing).status = 1 := by decide +kernel
  have hends : (gates.outcome writing).status = 0 := by decide +kernel
  have hleads : ((gates.after writing).follow "made/gate.ts" (Path.steps "made/gate.ts")).toOption =
      some ["tmp", "work", "made", "gate.ts"] := by decide +kernel
  obtain ⟨hnothing, hfiles⟩ :=
    (failing_command_changes_nothing gates hfailing).1 (by rw [hfails]; decide)
  obtain ⟨text, l, hprints, hplace, hwritten, -⟩ :=
    (failing_command_changes_nothing gates hwriting).2.1 _ _ rfl rfl rfl hends
  rw [hplace] at hleads
  obtain rfl := Option.some.inj hleads
  obtain ⟨hsilent, hwrites⟩ := hwritten (by decide)
  exact ⟨hfails, hnothing, hfiles, hends, hsilent, text, _, hprints, hwrites⟩

/-- What is read at the path of the output file is not always the text: nothing is, when the text
    goes to the null file. -/
theorem null_file_holds_no_text :
    ¬ ∀ (t : FileTree) (words : List String) (g : Generation) (path : String),
      Invocation.ofWords words = some (.generate g) → g.out = some path → g.idle = false →
      (t.outcome words).status = 0 → ∃ text,
        ((Invocation.generate { g with out := none }).run FileTree.files).run t =
          (.done text "", t) ∧
        (t.after words).read path = .ok text.toUTF8.toList := by
  intro h
  have hends : (gates.outcome ["generate", "-i", "key.json", "-o", "/dev/null"]).status = 0 := by
    decide +kernel
  obtain ⟨text, hprints, hread⟩ := h gates ["generate", "-i", "key.json", "-o", "/dev/null"]
    { inputs := ["key.json"], out := some "/dev/null" } "/dev/null" (by decide) rfl rfl hends
  have hempty : ((gates.after ["generate", "-i", "key.json", "-o", "/dev/null"]).read
      "/dev/null").toOption = some [] := by decide +kernel
  have hsome : (((Invocation.generate { inputs := ["key.json"] }).run FileTree.files).run
      gates).1.output.toUTF8.toList ≠ [] := by decide +kernel
  rw [hread] at hempty
  rw [hprints] at hsome
  exact hsome (Option.some.inj hempty)

end WireContract.Command
