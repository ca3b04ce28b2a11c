import WireContract.Proofs.Wire.Closed
import WireContract.Proofs.Wire.Concurrence
import WireContract.Proofs.Wire.Omission

/-!
# More levels, other definitions

What a check says with some levels left it says with more, unless it was at its last one. And it
says the same over another table, if the two differ only in definitions that the type does not lead
to.

* `Cuts`: an outcome, and one with more levels left; `check_cuts`: so are the outcomes of two checks
  of which one has more levels left;
* `Deepens`: the same for outcomes that may refuse a value for different reasons;
* `AgreesOff`: two tables that differ under some numbers only, and nothing else refers to those;
* `check_eq_of_agreesOff`: types that do not refer to them either are checked alike.
-/

namespace WireContract

namespace Wire

/-! ## 1. Levels -/

/-- The check was at its last level. -/
def EndsTooDeep {α : Type} (outcome : Except Fault α) : Prop :=
  ∃ path, outcome = .error (.tooDeep path)

/-- An outcome, and another that it is unless it ends at its last level. -/
inductive Cuts {α : Type} : Except Fault α → Except Fault α → Prop where
  | same (x : Except Fault α) : Cuts x x
  | tooDeep (path : Path) (y : Except Fault α) : Cuts (.error (.tooDeep path)) y

namespace Cuts

variable {α β : Type} {x y : Except Fault α}

theorem bind {f g : α → Except Fault β} (h : Cuts x y) (hf : ∀ a, Cuts (f a) (g a)) :
    Cuts (x >>= f) (y >>= g) := by
  cases h with
  | same =>
    cases x with
    | ok a => exact hf a
    | error fault => exact .same _
  | tooDeep path => exact .tooDeep path _

/-- The next member of a union is asked with both numbers of levels or with neither, since the last
    level is no reason to ask it. -/
theorem next {x y x' y' : Except Fault Json} (h : Cuts x y) (h' : Cuts x' y') :
    Cuts (orNext x x') (orNext y y') := by
  cases h with
  | same =>
    cases x with
    | ok out => exact .same _
    | error fault =>
      by_cases hm : fault.isMismatch = true
      · rw [orNext_of_isMismatch hm, orNext_of_isMismatch hm]
        exact h'
      · rw [orNext_of_not_isMismatch hm, orNext_of_not_isMismatch hm]
        exact .same _
  | tooDeep path => exact .tooDeep path _

theorem map (f : α → β) (h : Cuts x y) : Cuts (x.map f) (y.map f) := by
  cases h with
  | same => exact .same _
  | tooDeep path => exact .tooDeep path _

theorem trans {z : Except Fault α} (h : Cuts x y) (h' : Cuts y z) : Cuts x z := by
  cases h with
  | same => exact h'
  | tooDeep path => exact .tooDeep path z

/-- What comes behind a value with more levels left comes behind it with fewer, as far as they
    go. -/
theorem behind {a : α} {f : α → Except Fault β} {z : Except Fault β} (h : Cuts x (.ok a))
    (hf : Cuts (f a) z) : Cuts (x >>= f) z := by
  cases h with
  | same => exact hf
  | tooDeep path => exact .tooDeep path z

theorem eq_or_endsTooDeep (h : Cuts x y) : x = y ∨ EndsTooDeep x := by
  cases h with
  | same => exact .inl rfl
  | tooDeep path => exact .inr ⟨path, rfl⟩

theorem eq_of_not_endsTooDeep (h : Cuts x y) (hx : ¬ EndsTooDeep x) : y = x :=
  (h.eq_or_endsTooDeep.resolve_right hx).symm

end Cuts

theorem kept_cuts : Kept (fun _ => True) fun _ => Cuts where
  ok a := .same (.ok a)
  refused fault _ := .same (.error fault)
  schema fault _ := .same (.error (.schema fault))
  bind h hf := h.bind hf
  next h hnext := h.next hnext

/-- **More levels do not change what a check says.** -/
theorem check_cuts (types : TypeTable) (left more : Nat) (ty : Ty) :
    InStep (fun _ => Cuts) (check types left) (check types (left + more)) ty ty := by
  induction left generalizing ty with
  | zero => exact fun v path => .tooDeep path _
  | succ left ih =>
    rw [Nat.succ_add, check_succ, check_succ]
    exact checkStep_inStep kept_cuts (fun _ _ => trivial) fun inner _ => ih inner

/-- The value is accepted, as far as the levels go. -/
def Affirms {α : Type} (outcome : Except Fault α) : Prop := Accepted outcome ∨ EndsTooDeep outcome

theorem Affirms.orNext {x : Except Fault Json} (h : Affirms x) (next : Except Fault Json) :
    Affirms (orNext x next) := by
  obtain ⟨out, rfl⟩ | ⟨path, rfl⟩ := h
  · exact .inl ⟨out, rfl⟩
  · exact .inr ⟨path, rfl⟩

/-- An outcome, and another that it tells unless it ends at its last level: the two are the same, or
    both refuse the value, for whatever reason. -/
inductive Deepens {α : Type} : Except Fault α → Except Fault α → Prop where
  | same (x : Except Fault α) : Deepens x x
  | refused (fault other : Fault) (h : fault.isMismatch = true) (ho : other.isMismatch = true) :
      Deepens (.error fault) (.error other)
  | tooDeep (path : Path) (y : Except Fault α) : Deepens (.error (.tooDeep path)) y

namespace Deepens

variable {α : Type}

theorem of_cuts {x y : Except Fault α} (h : Cuts x y) : Deepens x y := by
  cases h with
  | same => exact .same _
  | tooDeep path => exact .tooDeep path _

theorem next {x y x' y' : Except Fault Json} (h : Deepens x y) (h' : Deepens x' y') :
    Deepens (orNext x x') (orNext y y') := by
  cases h with
  | same =>
    cases x with
    | ok out => exact .same _
    | error fault =>
      by_cases hm : fault.isMismatch = true
      · rw [orNext_of_isMismatch hm, orNext_of_isMismatch hm]
        exact h'
      · rw [orNext_of_not_isMismatch hm, orNext_of_not_isMismatch hm]
        exact .same _
  | refused fault other h ho =>
    rw [orNext_of_isMismatch h, orNext_of_isMismatch ho]
    exact h'
  | tooDeep path =>
    exact .tooDeep path _

theorem trans {x y z : Except Fault α} (h : Deepens x y) (h' : Deepens y z) : Deepens x z := by
  cases h with
  | same => exact h'
  | refused fault other h ho =>
    cases h' with
    | same => exact .refused fault other h ho
    | refused _ last _ hl => exact .refused fault last h hl
    | tooDeep => cases ho
  | tooDeep path => exact .tooDeep path z

/-- What is accepted is accepted with more levels. -/
theorem accepted {x y : Except Fault α} (h : Deepens x y) (hx : Accepted x) : Accepted y := by
  cases h with
  | same => exact hx
  | refused fault => exact absurd hx (not_accepted_error fault)
  | tooDeep path => exact absurd hx (not_accepted_error _)

/-- What is accepted with more levels is accepted as far as the levels go. -/
theorem affirms {x y : Except Fault α} (h : Deepens x y) (hy : Accepted y) : Affirms x := by
  cases h with
  | same => exact .inl hy
  | refused _ other => exact absurd hy (not_accepted_error other)
  | tooDeep path => exact .inr ⟨path, rfl⟩

/-- What one of two outcomes in a row accepts with more levels is accepted as far as the levels
    go. -/
theorem affirms_orNext {x y next next' : Except Fault Json} (h : Deepens x y)
    (hnext : Accepted next' → Affirms next) (hok : Accepted (orNext y next')) :
    Affirms (orNext x next) := by
  cases h with
  | same =>
    cases x with
    | ok out => exact .inl ⟨out, rfl⟩
    | error fault =>
      by_cases hm : fault.isMismatch = true
      · rw [orNext_of_isMismatch hm] at hok ⊢
        exact hnext hok
      · rw [orNext_of_not_isMismatch hm] at hok
        exact absurd hok (not_accepted_error fault)
  | refused fault other h ho =>
    rw [orNext_of_isMismatch ho] at hok
    rw [orNext_of_isMismatch h]
    exact hnext hok
  | tooDeep path => exact .inr ⟨path, rfl⟩

/-- One more refusal behind an outcome makes it no other. -/
theorem orNext_refused (x : Except Fault Json) {fault : Fault} (h : fault.isMismatch = true) :
    Deepens (orNext x (.error fault)) x := by
  cases x with
  | ok out => exact .same _
  | error first =>
    by_cases hm : first.isMismatch = true
    · rw [orNext_of_isMismatch hm]
      exact .refused fault first h hm
    · rw [orNext_of_not_isMismatch hm]
      exact .same _

end Deepens

theorem check_deepens (types : TypeTable) (left more : Nat) (ty : Ty) :
    InStep (fun _ => Deepens) (check types left) (check types (left + more)) ty ty :=
  fun v path => .of_cuts (check_cuts types left more ty v path)

end Wire

/-! ## 2. Tables -/

/-- Two tables find the same under all numbers but some, and what is found does not refer to
    those. -/
structure TypeTable.AgreesOff (hidden : DefId → Prop) (t t' : TypeTable) : Prop where
  get : ∀ id, ¬ hidden id → t'.get id = t.get id
  avoids : ∀ id body, ¬ hidden id → t.get id = .ok body → ∀ other ∈ body.mentions, ¬ hidden other

namespace Wire

variable {hidden : DefId → Prop} {types types' : TypeTable} {ty : Ty}

/-- One level of the check asks the table for one definition at most. -/
theorem checkStep_congr_types
    (h : ∀ target args, ty = .named target args → types'.get target = types.get target)
    (checker : Checker) : checkStep types' checker ty = checkStep types checker ty := by
  funext v path
  cases ty with
  | named target args => simp only [checkStep, h target args rfl]
  | primitive kind => cases kind <;> rfl
  | _ => rfl

/-- What a type leads to next does not refer to the numbers either. -/
theorem mentions_of_hands (htypes : types.AgreesOff hidden types') {inner : Ty}
    (hinner : Hands types ty inner) (h : ∀ id ∈ ty.mentions, ¬ hidden id) :
    ∀ id ∈ inner.mentions, ¬ hidden id := by
  cases hinner with
  | optional =>
    rwa [Ty.mentions_optional] at h
  | union members _ hmember =>
    rw [Ty.mentions_union] at h
    exact fun id hid => h id (List.mem_flatMap_of_mem hmember hid)
  | container kind elems variadic _ helem =>
    rw [Ty.mentions_container] at h
    exact fun id hid => h id (List.mem_flatMap_of_mem helem hid)
  | named target args body expression hb _ hexpression =>
    rw [Ty.mentions_named, List.forall_mem_cons] at h
    refine Ty.mentions_substitute (fun name arg harg id hid => ?_) fun id hid => ?_
    · exact h.2 id (List.mem_flatMap_of_mem (Ty.bind_get?_mem harg) hid)
    · exact htypes.avoids target body h.1 hb id (List.mem_flatMap_of_mem hexpression hid)

/-- **Types that do not lead to where two tables differ are checked alike.** -/
theorem check_eq_of_agreesOff (htypes : types.AgreesOff hidden types') (left : Nat)
    (h : ∀ id ∈ ty.mentions, ¬ hidden id) : check types' left ty = check types left ty := by
  induction left generalizing ty with
  | zero => rfl
  | succ left ih =>
    rw [check_succ, check_succ]
    have hget : ∀ target args, ty = .named target args → types'.get target = types.get target := by
      rintro target args rfl
      exact htypes.get target (h target (by rw [Ty.mentions_named]; exact List.mem_cons_self))
    rw [checkStep_congr_types hget]
    funext v path
    refine checkStep_inStep kept_eq (fun _ _ => trivial) (fun inner hinner v path => ?_) v path
    rw [ih (mentions_of_hands htypes hinner h)]

end Wire

end WireContract
