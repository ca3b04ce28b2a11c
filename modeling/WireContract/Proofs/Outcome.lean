/-!
# Properties of values that a computation may give

What holds of every value that a computation with failures gives, when it gives one.

* `Yields`: if there is a value, it has the property;
* `map`, `bind`, `mapM`: the property follows the ways in which such computations are put together;
* `map_map`, `mapM_mapM`: two computations that give the same up to a function.
-/

namespace WireContract

/-- If the outcome is a value, it has the property. -/
def Yields {ε α : Type} (outcome : Except ε α) (p : α → Prop) : Prop :=
  ∀ a, outcome = .ok a → p a

namespace Yields

variable {ε α β : Type} {p q : α → Prop} {r : β → Prop} {outcome : Except ε α}

theorem ok {a : α} (h : p a) : Yields (.ok a : Except ε α) p := by
  intro b hb
  cases hb
  exact h

theorem error (fault : ε) : Yields (.error fault : Except ε α) p :=
  fun _ h => nomatch h

theorem always : Yields outcome fun _ => True := fun _ _ => trivial

theorem mono (h : Yields outcome p) (hpq : ∀ a, p a → q a) : Yields outcome q :=
  fun a ha => hpq a (h a ha)

theorem map {f : α → β} (h : Yields outcome p) (hf : ∀ a, p a → r (f a)) :
    Yields (outcome.map f) r := by
  cases outcome with
  | ok a => exact .ok (hf a (h a rfl))
  | error fault => exact .error fault

theorem bind {f : α → Except ε β} (h : Yields outcome p) (hf : ∀ a, p a → Yields (f a) r) :
    Yields (outcome >>= f) r := by
  cases outcome with
  | ok a => exact hf a (h a rfl)
  | error fault => exact .error fault

/-- One computation for each item of a list. -/
theorem mapM {f : β → Except ε α} {items : List β} (h : ∀ item ∈ items, Yields (f item) p) :
    Yields (items.mapM f) fun values => ∀ a ∈ values, p a := by
  induction items with
  | nil => exact .ok fun a ha => absurd ha List.not_mem_nil
  | cons item rest ih =>
    rw [List.forall_mem_cons] at h
    rw [List.mapM_cons]
    refine h.1.bind fun a ha => (ih h.2).bind fun values hvalues => .ok ?_
    exact List.forall_mem_cons.mpr ⟨ha, hvalues⟩

/-- What is seen of the items is seen of the values. -/
theorem mapM_map {γ : Type} {f : β → Except ε α} {items : List β} {e : α → γ} {g : β → γ}
    (h : ∀ item ∈ items, Yields (f item) fun a => e a = g item) :
    Yields (items.mapM f) fun values => values.map e = items.map g := by
  induction items with
  | nil => exact .ok rfl
  | cons item rest ih =>
    rw [List.forall_mem_cons] at h
    rw [List.mapM_cons]
    refine h.1.bind fun a ha => (ih h.2).bind fun values hvalues => .ok ?_
    rw [List.map_cons, List.map_cons, ha, hvalues]

/-! ## Two computations -/

section Two

variable {γ δ : Type} {e : α → γ} {e' : β → δ}

/-- If the second computation gives what the first does up to a function, so do the two with a
    function behind each. -/
theorem map_map {other : Except ε γ} {f : α → β} {g : γ → δ}
    (h : Yields outcome fun a => other = .ok (e a)) (hfg : ∀ a, g (e a) = e' (f a)) :
    Yields (outcome.map f) fun b => other.map g = .ok (e' b) :=
  h.map fun a ha => by rw [ha, Except.map, hfg]

/-- And two rows of such computations, one for each item. -/
theorem mapM_mapM {f : β → Except ε α} {g : β → Except ε γ} {items : List β}
    (h : ∀ item ∈ items, Yields (f item) fun a => g item = .ok (e a)) :
    Yields (items.mapM f) fun values => items.mapM g = .ok (values.map e) := by
  induction items with
  | nil => exact .ok rfl
  | cons item rest ih =>
    rw [List.forall_mem_cons] at h
    rw [List.mapM_cons, List.mapM_cons]
    refine h.1.bind fun a ha => (ih h.2).bind fun values hvalues => .ok ?_
    rw [ha, hvalues]
    rfl

end Two

end Yields

end WireContract
