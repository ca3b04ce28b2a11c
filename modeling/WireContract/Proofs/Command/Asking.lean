import WireContract.Command.FileTree
import WireContract.Command.Run

/-!
# Asking changes nothing

A command works on a tree of files by a few operations, of which two change the tree: one makes a
directory, the other writes a file. So whatever only asks leaves the tree as it is, and making
directories leaves the files.

* `Keeps`: a computation that leaves what a view shows of the tree; `Keeps.bind` and its neighbours
  follow the ways in which computations are put together;
* `run_andThen_of_ok` and its neighbours: runs of computations that may fail, one step at a time;
* `load_keeps`, `apply_keeps`: nothing is written while inputs and settings are read;
* `makeDirectories_keeps`: making directories leaves the files.
-/

namespace WireContract.Command

/-! ## 1. Computations that leave something as it is -/

/-- The computation leaves what a view shows of the tree. -/
def Keeps {α β : Type} (view : FileTree → β) (x : StateM FileTree α) : Prop :=
  ∀ t, view (x.run t).2 = view t

namespace Keeps

variable {α β γ ε : Type} {view : FileTree → γ}

theorem pure (a : α) : Keeps view (Pure.pure a : StateM FileTree α) := fun _ => rfl

theorem bind {x : StateM FileTree α} {f : α → StateM FileTree β} (hx : Keeps view x)
    (hf : ∀ a, Keeps view (f a)) : Keeps view (x >>= f) :=
  fun t => (hf _ _).trans (hx t)

/-! The same for computations that may fail. -/

theorem ok (a : α) : Keeps view (Pure.pure a : ExceptT ε (StateM FileTree) α).run := fun _ => rfl

theorem fail (e : ε) : Keeps view (throw e : ExceptT ε (StateM FileTree) α).run := fun _ => rfl

theorem andThen {x : ExceptT ε (StateM FileTree) α} {f : α → ExceptT ε (StateM FileTree) β}
    (hx : Keeps view x.run) (hf : ∀ a, Keeps view (f a).run) : Keeps view (x >>= f).run := by
  rw [ExceptT.run_bind]
  refine hx.bind fun result => ?_
  cases result with
  | ok a => exact hf a
  | error e => exact fun _ => rfl

theorem lift {x : StateM FileTree α} (hx : Keeps view x) :
    Keeps view (liftM x : ExceptT ε (StateM FileTree) α).run := hx

/-- What leaves all that can be seen leaves the tree. -/
theorem exists_run_eq {x : StateM FileTree α} (hx : Keeps id x) (t : FileTree) :
    ∃ a, x.run t = (a, t) :=
  ⟨(x.run t).1, Prod.ext rfl (hx t)⟩

end Keeps

section Runs

variable {ε α β : Type} {x : ExceptT ε (StateM FileTree) α} {f : α → ExceptT ε (StateM FileTree) β}
  {t t' : FileTree}

/-- What comes behind a value is run on the tree that is there then. -/
theorem run_andThen_of_ok {a : α} (h : x.run.run t = (.ok a, t')) :
    (x >>= f).run.run t = (f a).run.run t' := by
  rw [ExceptT.run_bind, StateT.run_bind, h]
  rfl

theorem run_andThen_of_error {e : ε} (h : x.run.run t = (.error e, t')) :
    (x >>= f).run.run t = (.error e, t') := by
  rw [ExceptT.run_bind, StateT.run_bind, h]
  rfl

theorem run_lift {x : StateM FileTree α} {a : α} (h : x.run t = (a, t')) :
    (liftM x : ExceptT ε (StateM FileTree) α).run.run t = (.ok a, t') := by
  change ((fun a => Except.ok a) <$> x).run t = (.ok a, t')
  rw [StateT.run_map, h]
  rfl

end Runs

/-! ## 2. Reading -/

section Reading

variable {γ : Type} {view : FileTree → γ}

theorem isDirectory_keeps (path : String) : Keeps view (FileTree.files.isDirectory path) :=
  fun _ => rfl

theorem readText_keeps (path : String) : Keeps view (FileTree.files.readText path) := by
  unfold Files.readText
  refine Keeps.bind (fun _ => rfl) fun result => ?_
  cases result with
  | error e => exact .pure _
  | ok bytes => 
    dsimp only
    split <;> exact .pure _

namespace Glob

theorem found_keeps (directoriesOnly : Bool) (path : String) :
    Keeps view (found FileTree.files directoriesOnly path).run := by
  unfold found
  split
  · refine Keeps.andThen (.lift (isDirectory_keeps path)) fun directory => ?_
    split <;> exact .ok _
  · exact .ok _

theorem namesIn_keeps (path : String) : Keeps view (namesIn FileTree.files path).run := by
  unfold namesIn
  refine Keeps.andThen (.lift (isDirectory_keeps path)) fun directory => ?_
  split
  · refine Keeps.andThen (.lift fun _ => rfl) fun result => ?_
    cases result with
    | ok names => exact .ok _
    | error e => exact .fail _
  · exact .ok _

theorem leadsOn_keeps (path name : String) : Keeps view (leadsOn FileTree.files path name).run := by
  unfold leadsOn
  split
  · exact .lift (isDirectory_keeps path)
  · exact Keeps.andThen (.lift fun _ => rfl) fun kind => .ok _

theorem forEach_keeps {find : String → ExceptT InputFault (StateM FileTree) (List String)}
    (h : ∀ path, Keeps view (find path).run) (paths : List String) :
    Keeps view (forEach find paths).run := by
  induction paths with
  | nil => exact .ok _
  | cons path rest ih => exact (h path).andThen fun first => ih.andThen fun others => .ok _

/-- The induction is on the fuel. -/
theorem expandFrom_keeps (directoriesOnly : Bool) (fuel : Nat) (steps : List GlobStep)
    (path : String) :
    Keeps view (expandFrom FileTree.files directoriesOnly fuel steps path).run := by
  induction fuel generalizing steps path with
  | zero =>
    cases steps with
    | nil => exact found_keeps directoriesOnly path
    | cons step rest => exact .ok _
  | succ fuel ih =>
    cases steps with
    | nil => exact found_keeps directoriesOnly path
    | cons step rest =>
      cases step with
      | fixed name =>
        refine Keeps.andThen (leadsOn_keeps path name) fun leads => ?_
        split
        · exact ih rest _
        · exact .ok _
      | pattern tokens =>
        refine Keeps.andThen (namesIn_keeps path) fun names => ?_
        refine Keeps.andThen (.lift (isDirectory_keeps path)) fun directory => ?_
        exact forEach_keeps (ih rest) _
      | anywhere =>
        refine Keeps.andThen (namesIn_keeps path) fun names => forEach_keeps (fun name => ?_) names
        refine Keeps.andThen (.lift (isDirectory_keeps _)) fun directory => ?_
        -- whatever is found of the directory itself, what is deeper in it is looked for behind
        have hdeeper : ∀ own : List String, Keeps view
            (if directory then
              expandFrom FileTree.files directoriesOnly fuel (.anywhere :: collapse rest)
                (Path.step path name) >>= fun deeper => pure (own ++ deeper)
            else pure [] >>= fun deeper => pure (own ++ deeper)).run := by
          intro own
          split
          · exact Keeps.andThen (ih _ _) fun deeper => .ok _
          · exact Keeps.andThen (.ok _) fun deeper => .ok _
        dsimp only
        split
        · exact Keeps.andThen (.ok _) hdeeper
        · split
          · exact Keeps.andThen (ih _ _) hdeeper
          · exact Keeps.andThen (.ok _) hdeeper

theorem expand_keeps (g : Glob) : Keeps view (g.expand FileTree.files).run := by
  unfold expand
  split
  · exact .ok _
  · exact expandFrom_keeps g.directoriesOnly _ g.steps g.start

end Glob

theorem resolveInput_keeps (input : String) :
    Keeps view (resolveInput FileTree.files input).run := by
  unfold resolveInput
  split
  · split
    · exact .fail _
    · rename_i glob _
      refine Keeps.andThen (Glob.expand_keeps glob) fun paths => ?_
      split
      · exact .fail _
      · exact .ok _
  · exact .ok _

theorem orFail_keeps {ε α : Type} (fault : ε → Fault) (result : Except ε α) :
    Keeps view (orFail fault result : ExceptT Fault (StateM FileTree) α).run := by
  cases result with
  | ok a => exact .ok a
  | error e => exact .fail _

theorem loadManifest_keeps (done : Manifest) (path : String) :
    Keeps view (loadManifest FileTree.files done path).run := by
  unfold loadManifest
  refine Keeps.andThen (.lift fun _ => rfl) fun result => ?_
  refine Keeps.andThen (orFail_keeps _ result) fun bytes => ?_
  exact Keeps.andThen (orFail_keeps _ _) fun next => orFail_keeps _ _

theorem loadManifests_keeps (done : Manifest) (paths : List String) :
    Keeps view (loadManifests FileTree.files done paths).run := by
  induction paths generalizing done with
  | nil => exact .ok done
  | cons path rest ih => exact (loadManifest_keeps done path).andThen fun done => ih done

/-- **Nothing is written while inputs are loaded.** -/
theorem load_keeps (inputs : List String) : Keeps view (load FileTree.files inputs).run := by
  unfold load
  refine Keeps.andThen (.lift (Glob.forEach_keeps resolveInput_keeps inputs)) fun result => ?_
  refine Keeps.andThen (orFail_keeps _ result) fun paths => ?_
  exact Keeps.andThen (loadManifests_keeps .empty paths) fun manifest => orFail_keeps _ _

/-- **Nor while the settings of the command line are.** -/
theorem apply_keeps (o : Overrides) (options : Bindings.Options) :
    Keeps view (o.apply FileTree.files options).run := by
  unfold Overrides.apply
  dsimp only
  split
  · exact Keeps.andThen (.ok _) fun preamble => .ok _
  · refine Keeps.andThen (.lift (readText_keeps _)) fun result => ?_
    exact Keeps.andThen (orFail_keeps _ result) fun preamble => .ok _

end Reading

/-! ## 3. Making directories -/

theorem FileTree.makeDirectory_contents {t t' : FileTree} {path : String}
    (h : t.makeDirectory path = .ok t') : t'.contents = t.contents := by
  unfold makeDirectory at h
  split at h
  · cases h
  · split at h <;> cases h
    rfl

theorem makeDirectory_keeps (path : String) :
    Keeps FileTree.contents (FileTree.files.makeDirectory path) := by
  intro t
  change (FileTree.change (·.makeDirectory path) t).2.contents = t.contents
  unfold FileTree.change
  dsimp only
  split
  · rename_i hmade
    exact FileTree.makeDirectory_contents hmade
  · rfl

/-- **Making directories leaves the files**, however far it gets. -/
theorem makeDirectories_keeps (stretches : List String) :
    Keeps FileTree.contents (makeDirectories FileTree.files stretches).run := by
  induction stretches with
  | nil => exact .ok ()
  | cons stretch above ih =>
    have hsettle : ∀ (path : String) (e : SystemError), Keeps FileTree.contents
        (do if ← FileTree.files.isDirectory path then pure () else throw (.directory e) :
          ExceptT Fault (StateM FileTree) Unit).run := by
      intro path e
      refine Keeps.andThen (.lift (isDirectory_keeps path)) fun directory => ?_
      split
      · exact .ok ()
      · exact .fail _
    unfold makeDirectories
    refine Keeps.andThen (.lift (makeDirectory_keeps _)) fun result => ?_
    split
    · exact .ok ()
    · refine Keeps.andThen ih fun _ => ?_
      refine Keeps.andThen (.lift (makeDirectory_keeps _)) fun result => ?_
      split
      · exact .ok ()
      · exact hsettle _ _
    · exact hsettle _ _

end WireContract.Command
