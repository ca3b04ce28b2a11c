import WireContract.Proofs.Bindings.Settings
import WireContract.Proofs.Command.Asking
import WireContract.Proofs.Type.AliasSearch

/-!
# What `check` tells of `generate`

Both commands load their inputs and then only compute: `check` generates client code with the
settings of the inputs and throws it away, `generate` with those of the command line. A registry has
one outcome for all settings under which one level of indentation fits into a text. So the two end
alike if both settings are such, as long as `generate` reads and writes no other file; and the
summary that `check` prints fails no more once generation has succeeded. Under other settings the
program ends by itself, and loading never does that: so the status tells which settings these are.

* `checked`, `printed`: what the commands make of inputs that are loaded;
  `run_checkInputs`, `run_generateBindings`: they do nothing else;
* `load_avoids_overflow`: loading makes no indentation;
* `Outcome.Foretells`: two outcomes that tell of each other; `checked_foretells`;
* `check_predicts_generate`: the commands on a tree of files, and
  `wide_indentation_is_not_foretold`: they do not end alike under all settings.
-/

namespace WireContract.Command

/-! ## 1. Behind the loading -/

/-- Options with what the command line sets, when it names no preamble. -/
def Overrides.settle (o : Overrides) (options : Bindings.Options) : Bindings.Options :=
  { preamble := options.preamble
    dispatch := o.dispatch.getD options.dispatch
    resultType := o.resultType.getD options.resultType
    indent := o.indent.getD options.indent }

/-- What `check` makes of inputs that are loaded. -/
def checked (loaded : Registry × Bindings.Options) : Except Fault Outcome :=
  match Bindings.generate loaded.1 loaded.2 with
  | .error failure => .error (.ofFailure failure)
  | .ok _ =>
    match summary loaded.1.types loaded.1.methods with
    | .error fault => .error (.schema fault)
    | .ok lines => .ok (.done lines ("ok: " ++ toString loaded.1.size ++ " method(s)\n"))

/-- What `generate` prints for inputs that are loaded. -/
def printed (o : Overrides) (loaded : Registry × Bindings.Options) : Except Fault Outcome :=
  match Bindings.generate loaded.1 (o.settle loaded.2) with
  | .error failure => .error (.ofFailure failure)
  | .ok bindings => .ok (.done (bindings.text (o.settle loaded.2)) "")

/-- The outcome of a command; a fault is one. -/
def Outcome.ofResult : Except Fault Outcome → Outcome
  | .ok outcome => outcome
  | .error fault => .failed fault

section Runs

variable {m : Type → Type} [Monad m] [LawfulMonad m] (files : Files m)

theorem run_checkInputs (inputs : List String) :
    (checkInputs files inputs).run = (·.bind checked) <$> (load files inputs).run := by
  rw [checkInputs, ExceptT.run_bind, map_eq_pure_bind]
  refine bind_congr fun result => ?_
  cases result with
  | error fault => rfl
  | ok loaded =>
    simp only [Except.bind, checked]
    cases Bindings.generate loaded.1 loaded.2 with
    | error failure => simp [orFail]
    | ok bindings =>
      cases summary loaded.1.types loaded.1.methods <;> simp [orFail]

theorem apply_eq_pure {o : Overrides} (h : o.preamble = none) (options : Bindings.Options) :
    o.apply files options = pure (o.settle options) := by
  rw [Overrides.apply, h]
  exact pure_bind _ _

theorem run_generateBindings {g : Generation} (hpreamble : g.overrides.preamble = none)
    (hout : g.out = none) :
    (generateBindings files g).run =
      (·.bind (printed g.overrides)) <$> (load files g.inputs).run := by
  rw [generateBindings, ExceptT.run_bind, map_eq_pure_bind]
  refine bind_congr fun result => ?_
  cases result with
  | error fault => rfl
  | ok loaded =>
    simp only [Except.bind, printed, apply_eq_pure files hpreamble, pure_bind, hout]
    cases Bindings.generate loaded.1 (g.overrides.settle loaded.2) <;> simp [orFail]

/-- **`check` is loading and a computation behind it.** -/
theorem run_check {words inputs : List String}
    (hwords : Invocation.ofWords words = some (.check inputs)) :
    run files words =
      (fun result => .ofResult (result.bind checked)) <$> (load files inputs).run := by
  simp only [run, hwords, Invocation.run, run_checkInputs, map_eq_pure_bind, bind_assoc, pure_bind]
  refine bind_congr fun result => ?_
  cases result.bind checked <;> rfl

/-- **So is `generate`**, on the same inputs, if no other file is named. -/
theorem run_generate {words : List String} {g : Generation}
    (hwords : Invocation.ofWords words = some (.generate g))
    (hpreamble : g.overrides.preamble = none) (hout : g.out = none) (hidle : g.idle = false) :
    run files words =
      (fun result => .ofResult (result.bind (printed g.overrides))) <$>
        (load files g.inputs).run := by
  simp only [run, hwords, Invocation.run, hidle, Bool.false_eq_true, if_false,
    run_generateBindings files hpreamble hout, map_eq_pure_bind, bind_assoc, pure_bind]
  refine bind_congr fun result => ?_
  cases result.bind (printed g.overrides) <;> rfl

end Runs

/-! ## 2. Which settings fit -/

/-- No run of the computation ends with the program. -/
def AvoidsOverflow {α : Type} (x : ExceptT Fault (StateM FileTree) α) : Prop :=
  ∀ t, (x.run.run t).1 ≠ .error .overflow

namespace AvoidsOverflow

variable {α β ε : Type}

theorem andThen {x : ExceptT Fault (StateM FileTree) α} {f : α → ExceptT Fault (StateM FileTree) β}
    (hx : AvoidsOverflow x) (hf : ∀ a, AvoidsOverflow (f a)) : AvoidsOverflow (x >>= f) := by
  intro t
  obtain ⟨result, t', hrun⟩ : ∃ result t', x.run.run t = (result, t') := ⟨_, _, rfl⟩
  cases result with
  | error fault =>
    rw [run_andThen_of_error hrun]
    have hfault := hx t
    rw [hrun] at hfault
    exact fun h => hfault (congrArg Except.error (Except.error.inj h))
  | ok a =>
    rw [run_andThen_of_ok hrun]
    exact hf a t'

theorem lift (x : StateM FileTree α) : AvoidsOverflow (liftM x) := fun t => by
  rw [run_lift (rfl : x.run t = ((x.run t).1, (x.run t).2))]
  exact nofun

theorem orFail {fault : ε → Fault} (h : ∀ e, fault e ≠ .overflow) (result : Except ε α) :
    AvoidsOverflow (orFail fault result) := by
  intro t
  cases result with
  | ok a => exact nofun
  | error e => exact fun hrun => h e (Except.error.inj hrun)

end AvoidsOverflow

theorem loadManifests_avoids_overflow (done : Manifest) (paths : List String) :
    AvoidsOverflow (loadManifests FileTree.files done paths) := by
  induction paths generalizing done with
  | nil => exact fun _ => nofun
  | cons path rest ih =>
    refine .andThen (.andThen (.lift _) fun bytes => ?_) ih
    refine .andThen (.orFail (by exact fun _ => nofun) bytes) fun bytes => ?_
    refine .andThen (.orFail (by exact fun _ => nofun) _) fun next => ?_
    exact .orFail (by exact fun _ => nofun) _

/-- Loading makes no indentation. -/
theorem load_avoids_overflow (inputs : List String) :
    AvoidsOverflow (load FileTree.files inputs) := by
  refine .andThen (.lift _) fun paths => ?_
  refine .andThen (.orFail (by exact fun _ => nofun) paths) fun paths => ?_
  refine .andThen (loadManifests_avoids_overflow .empty paths) fun manifest => ?_
  exact .orFail (by exact fun _ => nofun) _

theorem Fault.status_eq_iff {fault : Fault} : fault.status = 101 ↔ fault = .overflow := by
  cases fault <;> simp [Fault.status]

theorem Fault.status_ofFailure_iff {failure : Bindings.Failure} :
    (Fault.ofFailure failure).status = 101 ↔ failure = .overflow := by
  rw [Fault.status_eq_iff]
  cases failure <;> simp [Fault.ofFailure]

theorem checked_overflows_iff (loaded : Registry × Bindings.Options) :
    (Outcome.ofResult (checked loaded)).status = 101 ↔ ¬ loaded.2.Fits := by
  rw [← Bindings.generate_eq_overflow_iff (r := loaded.1)]
  unfold checked
  cases Bindings.generate loaded.1 loaded.2 with
  | error failure =>
    rw [Except.error.injEq]
    exact Fault.status_ofFailure_iff
  | ok bindings =>
    cases summary loaded.1.types loaded.1.methods <;> exact iff_of_false nofun nofun

theorem printed_overflows_iff (o : Overrides) (loaded : Registry × Bindings.Options) :
    (Outcome.ofResult (printed o loaded)).status = 101 ↔ ¬ (o.settle loaded.2).Fits := by
  rw [← Bindings.generate_eq_overflow_iff (r := loaded.1)]
  unfold printed
  cases Bindings.generate loaded.1 (o.settle loaded.2) with
  | error failure =>
    rw [Except.error.injEq]
    exact Fault.status_ofFailure_iff
  | ok bindings => exact iff_of_false nofun nofun

/-! ## 3. Outcomes that tell of each other -/

/-- Two outcomes tell of each other: both commands print something, or both fail with one fault. -/
inductive Outcome.Foretells : Outcome → Outcome → Prop where
  | done (lines notice text : String) : Foretells (.done lines notice) (.done text "")
  | failed (fault : Fault) (hfault : fault ≠ .overflow) : Foretells (.failed fault) (.failed fault)

/-- No parameters are missing in the summary of methods that client code was generated for. -/
theorem exists_summary {types : TypeTable} {methods : List Method}
    (h : ∀ method ∈ methods, ∃ s, types.get method.params = .ok (.struct s)) :
    ∃ lines, summary types methods = .ok lines := by
  induction methods with
  | nil => exact ⟨"", rfl⟩
  | cons method rest ih =>
    obtain ⟨⟨s, hs⟩, hrest⟩ := List.forall_mem_cons.mp h
    obtain ⟨more, hmore⟩ := ih hrest
    refine ⟨summaryLine method (Definition.struct s).name ++ more, ?_⟩
    rw [summary, TypeTable.name_of_get hs, hmore]
    rfl

/-- **What is loaded is printed or refused by both commands**, under settings that fit. -/
theorem checked_foretells (o : Overrides) {loaded : Registry × Bindings.Options}
    (hchecked : loaded.2.Fits) (hprinted : (o.settle loaded.2).Fits) :
    Outcome.Foretells (.ofResult (checked loaded)) (.ofResult (printed o loaded)) := by
  obtain ⟨r, options⟩ := loaded
  simp only [checked, printed]
  rcases Bindings.generate_in_step r with ⟨fault, hfault⟩ | ⟨hr, ids, hblocks⟩
  · rw [hfault _ hchecked, hfault _ hprinted]
    exact .failed (.schema fault) nofun
  · obtain ⟨lines, hlines⟩ := exists_summary hr.parameters
    rw [hblocks _ hchecked, hblocks _ hprinted, hlines]
    exact .done lines _ _

namespace Outcome.Foretells

variable {c w : Outcome}

theorem status_eq (h : Foretells c w) : c.status = w.status := by
  cases h <;> rfl

theorem status_le_one (h : Foretells c w) : c.status ≤ 1 := by
  cases h with
  | done lines notice text => exact Nat.zero_le 1
  | failed fault hfault =>
    cases fault with
    | overflow => exact absurd rfl hfault
    | _ => exact Nat.le_refl 1

/-- What fails prints one line, and nothing else. -/
theorem prints_eq (h : Foretells c w) (hfails : c.status = 1) :
    c.notice = w.notice ∧ c.output = w.output := by
  cases h with
  | done lines notice text => cases hfails
  | failed fault hfault => exact ⟨rfl, rfl⟩

end Outcome.Foretells

/-! ## 4. Commands on a tree of files -/

namespace FileTree

/-- How a command line ends on a tree of files. -/
def outcome (t : FileTree) (words : List String) : Outcome :=
  ((run FileTree.files words).run t).1

/-- The registry and the settings that inputs hold. -/
def loaded (t : FileTree) (inputs : List String) : Except Fault (Registry × Bindings.Options) :=
  ((load FileTree.files inputs).run.run t).1

end FileTree

theorem outcome_eq {words inputs : List String}
    {f : Except Fault (Registry × Bindings.Options) → Outcome}
    (h : run FileTree.files words = f <$> (load FileTree.files inputs).run) (t : FileTree) :
    t.outcome words = f (t.loaded inputs) := by
  rw [FileTree.outcome, h]
  rfl

theorem exists_ok_iff {loaded : Registry × Bindings.Options} {p : Bindings.Options → Prop} :
    (∃ r options, (.ok loaded : Except Fault (Registry × Bindings.Options)) = .ok (r, options) ∧
      p options) ↔ p loaded.2 := by
  constructor
  · rintro ⟨r, options, h, hp⟩
    obtain rfl := Except.ok.inj h
    exact hp
  · exact fun hp => ⟨_, _, rfl, hp⟩

/-- **`check` predicts `generate` as far as the indentation fits.** Under settings whose indentation
    fits into a text, a registry has one outcome: one fault, or the same definitions in the same
    order; under others it has none. On every tree of files, each of the two commands ends with the
    program, with status 101, exactly if it has loaded its inputs and comes to settings that do not
    fit. If neither does, they end with one status, 0 or 1, whatever `generate` is told of the text
    it prints; and when they fail, it is with the same line. -/
theorem check_predicts_generate (r : Registry) (t : FileTree) :
    ((∃ fault, ∀ options, options.Fits → Bindings.generate r options = .error (.schema fault)) ∨
      ∃ ids, ∀ options, options.Fits →
        Bindings.generate r options = .ok (Bindings.blocksOf r ids options)) ∧
    (∀ options, Bindings.generate r options = .error .overflow ↔ ¬ options.Fits) ∧
    ∀ (checking generating : List String) (g : Generation),
      Invocation.ofWords checking = some (.check g.inputs) →
      Invocation.ofWords generating = some (.generate g) →
      g.overrides.preamble = none → g.out = none → g.idle = false →
      let c := t.outcome checking
      let w := t.outcome generating
      (c.status = 101 ↔ ∃ r options, t.loaded g.inputs = .ok (r, options) ∧ ¬ options.Fits) ∧
        (w.status = 101 ↔
          ∃ r options, t.loaded g.inputs = .ok (r, options) ∧ ¬ (g.overrides.settle options).Fits) ∧
        (c.status ≠ 101 → w.status ≠ 101 →
          c.status = w.status ∧ c.status ≤ 1 ∧
            (c.status = 1 → c.notice = w.notice ∧ c.output = w.output)) := by
  refine ⟨(Bindings.generate_in_step r).imp_right And.right,
    fun options => Bindings.generate_eq_overflow_iff, ?_⟩
  intro checking generating g hchecking hgenerating hpreamble hout hidle
  dsimp only
  rw [outcome_eq (run_check FileTree.files hchecking) t,
    outcome_eq (run_generate FileTree.files hgenerating hpreamble hout hidle) t]
  have hload := load_avoids_overflow g.inputs t
  cases hloaded : t.loaded g.inputs with
  | error fault =>
    -- both fail with the fault, and no settings are there
    have hfault : fault ≠ .overflow := fun h => hload (h ▸ hloaded)
    have hboth := Outcome.Foretells.failed fault hfault
    have hno : ¬ fault.status = 101 := mt Fault.status_eq_iff.mp hfault
    exact ⟨iff_of_false hno nofun, iff_of_false hno nofun,
      fun _ _ => ⟨hboth.status_eq, hboth.status_le_one, hboth.prints_eq⟩⟩
  | ok loaded =>
    have hc := checked_overflows_iff loaded
    have hw := printed_overflows_iff g.overrides loaded
    simp only [exists_ok_iff]
    refine ⟨hc, hw, ?_⟩
    intro hchecked hprinted
    have hboth := checked_foretells g.overrides (not_not.mp (mt hc.mpr hchecked))
      (not_not.mp (mt hw.mpr hprinted))
    exact ⟨hboth.status_eq, hboth.status_le_one, hboth.prints_eq⟩

/-- Two manifests: a gate that is opened with a key, and one that is opened with a ring, which is
    another name for itself. -/
def gates : FileTree :=
  .ofFiles [
    ("key.json",
      "\x7b\"types\": \x7b\"Key\": \x7b\"kind\": \"alias\", \"type\": \"str\"\x7d\x7d, " ++
      "\"methods\": [\x7b\"name\": \"open\", \"returns\": \"bool\", " ++
      "\"params\": [\x7b\"name\": \"key\", \"type\": \"Key\"\x7d]\x7d]\x7d"),
    ("ring.json",
      "\x7b\"types\": \x7b\"Ring\": \x7b\"kind\": \"alias\", \"type\": \"Ring\"\x7d\x7d, " ++
      "\"methods\": [\x7b\"name\": \"open\", \"returns\": \"bool\", " ++
      "\"params\": [\x7b\"name\": \"ring\", \"type\": \"Ring\"\x7d]\x7d]\x7d")]

/-- The line for the ring. -/
def ringLine : String :=
  "error: type alias refers to itself without an intervening interface: Ring -> Ring\n"

theorem check_predicts_generate_gates :
    (gates.outcome ["check", "-i", "key.json"]).status = 0 ∧
      (gates.outcome ["generate", "-i", "key.json", "--indent", "2"]).status = 0 ∧
      (gates.outcome ["check", "-i", "ring.json"]).status = 1 ∧
      (gates.outcome ["generate", "--dispatch=call", "-i", "ring.json"]).notice = ringLine := by
  have hkey : (gates.outcome ["check", "-i", "key.json"]).status = 0 := by decide +kernel
  obtain ⟨hring, hline⟩ : (gates.outcome ["check", "-i", "ring.json"]).status = 1 ∧
      (gates.outcome ["check", "-i", "ring.json"]).notice = ringLine := by decide +kernel
  have hindent :
      (gates.outcome ["generate", "-i", "key.json", "--indent", "2"]).status ≠ 101 := by
    decide +kernel
  have hdispatch :
      (gates.outcome ["generate", "--dispatch=call", "-i", "ring.json"]).status ≠ 101 := by
    decide +kernel
  obtain ⟨-, -, hpredicts⟩ := check_predicts_generate (.ofTypes .empty) gates
  obtain ⟨-, -, halike⟩ := hpredicts ["check", "-i", "key.json"]
    ["generate", "-i", "key.json", "--indent", "2"]
    { inputs := ["key.json"], overrides := { indent := some 2 } }
    (by decide) (by decide) rfl rfl rfl
  obtain ⟨hstatus, -⟩ := halike (by rw [hkey]; decide) hindent
  obtain ⟨-, -, halike⟩ := hpredicts ["check", "-i", "ring.json"]
    ["generate", "--dispatch=call", "-i", "ring.json"]
    { inputs := ["ring.json"], overrides := { dispatch := some "call" } }
    (by decide) (by decide) rfl rfl rfl
  obtain ⟨-, -, hprints⟩ := halike (by rw [hring]; decide) hdispatch
  exact ⟨hkey, hstatus.symm.trans hkey, hring, (hprints hring).1.symm.trans hline⟩

/-- What `check` accepts may be refused by `generate` still: the key's gate with the greatest
    indentation that the command line takes. -/
theorem wide_indentation_is_not_foretold :
    ¬ ∀ (t : FileTree) (checking generating : List String) (g : Generation),
      Invocation.ofWords checking = some (.check g.inputs) →
      Invocation.ofWords generating = some (.generate g) →
      g.overrides.preamble = none → g.out = none → g.idle = false →
      ((t.outcome checking).status = 0 ↔ (t.outcome generating).status = 0) := by
  intro h
  have hkey := h gates ["check", "-i", "key.json"]
    ["generate", "-i", "key.json", "--indent", "18446744073709551615"]
    { inputs := ["key.json"], overrides := { indent := some 18446744073709551615 } }
    (by decide) (by decide) rfl rfl rfl
  revert hkey
  decide +kernel

end WireContract.Command
