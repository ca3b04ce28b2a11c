import WireContract.Proofs.Command.Asking

/-!
# Writing a file

A file that is written is found at the end of its path. If it is an ordinary one it holds its text
then, and no other file holds another one; a special file holds nothing of it. The path is followed
in a tree that may have more directories by then, but a way that led somewhere before leads there
still.

* `advance`, `entrance`: the steps of a way, whatever tree it is in;
* `walk_of_directories`: what a way needs of the tree is its directories;
* `FileTree.Writes`: two trees of which the second holds a text in a file, and nothing else new;
* `FileTree.Receives`: two trees between which a text was written, into a special file or an
  ordinary one;
* `write_receives`: so it is by writing; `writeOutput_fails_or_delivers`: and with directories made
  for the file.
-/

namespace WireContract.Command

/-! ## 1. Ways -/

namespace FileTree

/-- Where one step out of a directory leads, whatever tree it is in. -/
def advance (here : Location) (step : String) : Except SystemError Location :=
  if Path.isIdle step then .ok here
  else if step = upward then .ok here.dropLast
  else if nameLimit < step.utf8ByteSize then .error .nameTooLong
  else .ok (here ++ [step])

theorem walk_cons_of_directory {t : FileTree} {here : Location}
    (h : t.kindAt here = some .directory) (step : String) (rest : List String) :
    t.walk here (step :: rest) = (advance here step).bind fun there => t.walk there rest := by
  rw [walk, h, advance]
  dsimp only
  split
  · rfl
  · split
    · rfl
    · split <;> rfl

/-- Steps lead somewhere only from a directory. -/
theorem kindAt_of_walk_cons {t : FileTree} {here l : Location} {step : String} {rest : List String}
    (h : t.walk here (step :: rest) = .ok l) : t.kindAt here = some .directory := by
  rw [walk] at h
  split at h
  · cases h
  · cases h
  · assumption

/-- Where a way starts, if the system can take its path. -/
def entrance (home : Location) (path : String) : Except SystemError Location :=
  if path.toList.contains '\x00' then .error .zeroInPath
  else if Path.byteLimit ≤ path.utf8ByteSize then .error .nameTooLong
  else if path.isEmpty then .error .notFound
  else .ok (if Path.isRooted path then [] else home)

theorem follow_eq (t : FileTree) (path : String) (steps : List String) :
    t.follow path steps = (entrance t.home path).bind fun here => t.walk here steps := by
  unfold follow entrance
  split
  · rfl
  · split
    · rfl
    · split <;> rfl

theorem exists_of_bind_eq_ok {ε α β : Type} {x : Except ε α} {f : α → Except ε β} {b : β}
    (h : x.bind f = .ok b) : ∃ a, x = .ok a ∧ f a = .ok b := by
  cases x with
  | error e => cases h
  | ok a => exact ⟨a, rfl, h⟩

/-- A way leads to the same place in every tree that has the directories on it. -/
theorem walk_of_directories {t t' : FileTree}
    (h : ∀ l, t.kindAt l = some .directory → t'.kindAt l = some .directory) {here l : Location}
    {steps : List String} (hwalk : t.walk here steps = .ok l) : t'.walk here steps = .ok l := by
  induction steps generalizing here with
  | nil => exact hwalk
  | cons step rest ih =>
    have hhere := kindAt_of_walk_cons hwalk
    rw [walk_cons_of_directory hhere] at hwalk
    obtain ⟨there, hstep, hrest⟩ := exists_of_bind_eq_ok hwalk
    rw [walk_cons_of_directory (h here hhere), hstep]
    exact ih hrest

/-- A single point at the end of a way leads nowhere, out of a directory. -/
theorem kindAt_of_walk_here {t : FileTree} {here l : Location} {steps : List String}
    (h : t.walk here (steps ++ ["."]) = .ok l) : t.kindAt l = some .directory := by
  induction steps generalizing here with
  | nil =>
    have hhere := kindAt_of_walk_cons h
    rw [List.nil_append, walk_cons_of_directory hhere] at h
    obtain rfl : here = l := Except.ok.inj h
    exact hhere
  | cons step rest ih =>
    rw [List.cons_append] at h
    rw [walk_cons_of_directory (kindAt_of_walk_cons h)] at h
    obtain ⟨there, -, hrest⟩ := exists_of_bind_eq_ok h
    exact ih hrest

/-- A path without a slash at its end has no steps that lead nowhere at its end. -/
theorem trimmed_eq {path : String} (h : (trimmed path).2 = false) :
    (trimmed path).1 = Path.steps path := by
  unfold trimmed at h ⊢
  dsimp only at h ⊢
  rw [List.reverse_eq_iff]
  cases hback : (Path.steps path).reverse with
  | nil => rfl
  | cons last rest =>
    have hlast : ¬ last.isEmpty = true := by simpa [hback] using h
    exact List.dropWhile_cons_of_neg hlast

/-! ## 2. What is stored -/

theorem lookup_store_self (l : Location) (content : List UInt8)
    (contents : List (Location × List UInt8)) :
    (store l content contents).lookup l = some content := by
  induction contents with
  | nil => simp [store]
  | cons e rest ih =>
    obtain ⟨k, old⟩ := e
    unfold store
    split
    · rename_i hk
      simp [hk]
    · rename_i hk
      have hne : (l == k) = false := beq_eq_false_iff_ne.mpr (Ne.symm hk)
      rw [List.lookup_cons, hne, ih]

theorem lookup_store_of_ne {l other : Location} (h : other ≠ l) (content : List UInt8)
    (contents : List (Location × List UInt8)) :
    (store l content contents).lookup other = contents.lookup other := by
  have hne : (other == l) = false := beq_eq_false_iff_ne.mpr h
  induction contents with
  | nil => simp [store, List.lookup_cons, hne]
  | cons e rest ih =>
    obtain ⟨k, old⟩ := e
    unfold store
    split
    · rename_i hk
      subst hk
      simp [List.lookup_cons, hne]
    · rw [List.lookup_cons, List.lookup_cons, ih]

theorem content?_of_stored {t t' : FileTree} {l : Location} {content : List UInt8}
    (h : t'.contents = store l content t.contents) (hordinary : l ≠ nullFile) (other : Location) :
    t'.content? other =
      if other = l then some content else t.content? other := by
  unfold content?
  split
  · rename_i hnull
    rw [if_neg fun hl => hordinary (hl.symm.trans hnull)]
  · rw [h]
    split
    · rename_i hl
      subst hl
      exact lookup_store_self other content t.contents
    · rename_i hl
      exact lookup_store_of_ne hl content t.contents

/-- Which locations are directories does not depend on the files. -/
theorem kindAt_eq_directory_iff {t : FileTree} {l : Location} :
    t.kindAt l = some .directory ↔ t.known.contains l = true := by
  unfold kindAt
  split
  · rename_i h
    exact iff_of_true rfl h
  · rename_i h
    refine iff_of_false ?_ h
    split <;> exact nofun

/-! ## 3. Writing -/

/-- Between two trees a text was written into the file at a path: the file is found there and holds
    the text, and every other file holds what it held. -/
structure Writes (before after : FileTree) (path text : String) (l : Location) : Prop where
  place : after.follow path (Path.steps path) = .ok l
  stored : after.contents = store l text.toUTF8.toList before.contents
  others : ∀ other, other ≠ l → after.content? other = before.content? other
  readBack : after.read path = .ok text.toUTF8.toList

/-- Between two trees a text was written at a path, whatever file is there. -/
inductive Receives (before after : FileTree) (path text : String) (l : Location) : Prop where
  /-- A special file was written: no file holds anything else than before. -/
  | special (hspecial : isSpecial l = true) (place : after.follow path (Path.steps path) = .ok l)
    (hkind : after.kindAt l ≠ some .directory) (hsame : after.contents = before.contents)
  /-- An ordinary file was written. -/
  | ordinary (hordinary : isSpecial l = false) (hwrites : Writes before after path text l)

theorem ne_nullFile_of_ordinary {l : Location} (h : isSpecial l = false) : l ≠ nullFile := by
  rintro rfl
  exact absurd h (by decide)

/-- A file at the end of its path, found in the tree that has been written to, is what was
    written. -/
theorem Writes.of_stored {t t' : FileTree} {path text : String} {l : Location}
    (hplace : t.follow path (Path.steps path) = .ok l) (hkind : t.kindAt l ≠ some .directory)
    (hordinary : isSpecial l = false) (hhome : t'.home = t.home)
    (hdirectories : t'.directories = t.directories)
    (hstored : t'.contents = store l text.toUTF8.toList t.contents) : Writes t t' path text l := by
  have hsame : ∀ l, t'.kindAt l = some .directory ↔ t.kindAt l = some .directory := fun l => by
    rw [kindAt_eq_directory_iff, kindAt_eq_directory_iff, known, known, hhome, hdirectories]
  have hfollow : t'.follow path (Path.steps path) = .ok l := by
    rw [follow_eq] at hplace ⊢
    rw [hhome]
    obtain ⟨here, hhere, hwalk⟩ := exists_of_bind_eq_ok hplace
    rw [hhere]
    exact walk_of_directories (fun l => (hsame l).mpr) hwalk
  have hcontents := content?_of_stored hstored (ne_nullFile_of_ordinary hordinary)
  have hcontent := hcontents l
  rw [if_pos rfl] at hcontent
  have hfile : t'.kindAt l = some .file := by
    have hno := mt (hsame l).mp hkind
    rw [kindAt_eq_directory_iff] at hno
    rw [kindAt, if_neg hno, hcontent]
    rfl
  refine ⟨hfollow, hstored, fun other hother => ?_, ?_⟩
  · rw [hcontents other, if_neg hother]
  · rw [read, hfollow]
    dsimp only
    rw [hfile, hcontent]
    rfl

namespace Receives

variable {before between after : FileTree} {path text : String} {l : Location}

theorem follow_eq (h : Receives before after path text l) :
    after.follow path (Path.steps path) = .ok l := by
  cases h with
  | special _ hplace _ _ => exact hplace
  | ordinary _ hwrites => exact hwrites.place

/-- An ordinary file holds the text. -/
theorem writes (h : Receives before after path text l) (hordinary : isSpecial l = false) :
    Writes before after path text l := by
  cases h with
  | special hspecial _ _ _ => cases hspecial.symm.trans hordinary
  | ordinary _ hwrites => exact hwrites

/-- The null file holds nothing, and no file holds anything else than before. -/
theorem null (h : Receives before after path text nullFile) :
    after.contents = before.contents ∧ after.read path = .ok [] := by
  cases h with
  | special _ hplace hkind hsame =>
    have hfile : after.kindAt nullFile = some .file := by
      rw [Ne, kindAt_eq_directory_iff] at hkind
      rw [kindAt, if_neg hkind]
      rfl
    refine ⟨hsame, ?_⟩
    rw [read, hplace]
    dsimp only
    rw [hfile]
    rfl
  | ordinary hordinary _ => exact absurd rfl (ne_nullFile_of_ordinary hordinary)

/-- Where only directories were made before, it is the files before that count. -/
theorem of_contents (h : Receives between after path text l)
    (hcontents : between.contents = before.contents) : Receives before after path text l := by
  cases h with
  | special hspecial hplace hkind hsame =>
    exact .special hspecial hplace hkind (hsame.trans hcontents)
  | ordinary hordinary hwrites =>
    have hcontent : ∀ l, between.content? l = before.content? l := fun l => by
      rw [content?, content?, hcontents]
    exact .ordinary hordinary
      { place := hwrites.place
        stored := hcontents ▸ hwrites.stored
        others := fun other hother => (hwrites.others other hother).trans (hcontent other)
        readBack := hwrites.readBack }

end Receives

/-- **Writing writes.** A path that the file is written under has no slash at its end, since the
    way would lead to a directory. -/
theorem write_receives {t t' : FileTree} {path text : String} (h : t.write path text = .ok t') :
    ∃ l, Receives t t' path text l := by
  unfold write at h
  dsimp only at h
  split at h
  · cases h
  · rename_i l hfollow
    split at h
    · cases h
    · rename_i hkind
      have hkind : t.kindAt l ≠ some .directory := by simpa using hkind
      refine ⟨l, ?_⟩
      cases hslash : (trimmed path).2 with
      | true =>
        rw [hslash, if_pos rfl, FileTree.follow_eq] at hfollow
        obtain ⟨here, -, hwalk⟩ := exists_of_bind_eq_ok hfollow
        exact absurd (kindAt_of_walk_here hwalk) hkind
      | false =>
        rw [hslash, if_neg Bool.false_ne_true, trimmed_eq hslash] at hfollow
        split at h
        · rename_i hspecial
          obtain rfl := Except.ok.inj h
          exact .special hspecial hfollow hkind rfl
        · rename_i hordinary
          have hordinary : isSpecial l = false := by simpa using hordinary
          obtain rfl := Except.ok.inj h
          exact .ordinary hordinary (.of_stored hfollow hkind hordinary rfl rfl rfl)

theorem change_of_error {operation : FileTree → Except SystemError FileTree} {t : FileTree}
    {e : SystemError} (h : operation t = .error e) : (change operation).run t = (.error e, t) := by
  simp only [change, StateT.run, h]

theorem change_of_ok {operation : FileTree → Except SystemError FileTree} {t t' : FileTree}
    (h : operation t = .ok t') : (change operation).run t = (.ok (), t') := by
  simp only [change, StateT.run, h]

end FileTree

/-! ## 4. The output file -/

theorem write_fails_or_delivers (path text : String) (t : FileTree) :
    (∃ e, (FileTree.files.write path text).run t = (.error e, t)) ∨
      ∃ t' l, (FileTree.files.write path text).run t = (.ok (), t') ∧
        FileTree.Receives t t' path text l := by
  cases hwrite : t.write path text with
  | error e => exact .inl ⟨e, FileTree.change_of_error hwrite⟩
  | ok t' =>
    obtain ⟨l, hfile⟩ := FileTree.write_receives hwrite
    exact .inr ⟨t', l, FileTree.change_of_ok hwrite, hfile⟩

/-- **The output file is written, or no file is**, whichever directories had to be made. -/
theorem writeOutput_fails_or_delivers (path text : String) (t : FileTree) :
    (∃ fault t', (writeOutput FileTree.files path text).run.run t = (.error fault, t') ∧
        t'.contents = t.contents) ∨
      ∃ t' l, (writeOutput FileTree.files path text).run.run t = (.ok (), t') ∧
        FileTree.Receives t t' path text l := by
  unfold writeOutput
  have hmakes := makeDirectories_keeps (Path.stretches (Path.steps path)).dropLast.reverse t
  generalize hmade : (makeDirectories FileTree.files
    (Path.stretches (Path.steps path)).dropLast.reverse).run.run t = made at hmakes
  obtain ⟨result, between⟩ := made
  cases result with
  | error fault => exact .inl ⟨fault, between, run_andThen_of_error hmade, hmakes⟩
  | ok _ =>
    rw [run_andThen_of_ok hmade]
    rcases write_fails_or_delivers path text between with ⟨e, hwrite⟩ | ⟨t', l, hwrite, hfile⟩
    · exact .inl ⟨.output path e, between, run_andThen_of_ok (run_lift hwrite), hmakes⟩
    · exact .inr ⟨t', l, run_andThen_of_ok (run_lift hwrite), hfile.of_contents hmakes⟩

end WireContract.Command
