import WireContract.Proofs.Wire.InStep

/-!
# Which faults of types a check can find

A check that trips over a type does so at one that it has come to from the type it started with. So
it is enough to know a property of types that is handed on, and what may be wrong with a type that
has it.

* `BlamesOnly`: an outcome that is no fault of a type but those in question;
* `check_blamesOnly`: on types of a kind that hands on to its own kind only, the check blames what
  such a type is itself at fault with.
-/

namespace WireContract.Wire

variable {blamed : SchemaFault → Prop}

/-- If the outcome is a fault of a type, it is one of those in question. -/
def BlamesOnly {α : Type} (blamed : SchemaFault → Prop) (outcome : Except Fault α) : Prop :=
  ∀ reason, outcome = .error (.schema reason) → blamed reason

namespace BlamesOnly

variable {α β : Type} {x : Except Fault α}

theorem ok (a : α) : BlamesOnly blamed (.ok a : Except Fault α) := fun _ h => nomatch h

/-- A fault that is not one of a type. -/
theorem error {fault : Fault} (h : ∀ reason, fault ≠ .schema reason) :
    BlamesOnly blamed (.error fault : Except Fault α) :=
  fun reason heq => absurd (Except.error.inj heq) (h reason)

theorem schema {reason : SchemaFault} (h : blamed reason) :
    BlamesOnly blamed (.error (.schema reason) : Except Fault α) := by
  intro other heq
  obtain rfl : reason = other := by simpa using heq
  exact h

theorem bind {f : α → Except Fault β} (h : BlamesOnly blamed x)
    (hf : ∀ a, BlamesOnly blamed (f a)) : BlamesOnly blamed (x >>= f) := by
  cases x with
  | ok a => exact hf a
  | error fault => exact fun reason heq => h reason (congrArg _ (Except.error.inj heq))

theorem map (f : α → β) (h : BlamesOnly blamed x) : BlamesOnly blamed (x.map f) := by
  cases x with
  | ok a => exact .ok (f a)
  | error fault => exact fun reason heq => h reason (congrArg _ (Except.error.inj heq))

/-- The next member is tried, or the fault is that of the first. -/
theorem next {x next : Except Fault Json} (h : BlamesOnly blamed x)
    (hnext : BlamesOnly blamed next) : BlamesOnly blamed (orNext x next) := by
  cases x with
  | ok out => exact .ok out
  | error fault =>
    by_cases hm : fault.isMismatch = true
    · rwa [orNext_of_isMismatch hm]
    · rwa [orNext_of_not_isMismatch hm]

end BlamesOnly

/-- The check keeps what it blames within what it may find at fault by itself. -/
theorem kept_blamesOnly (blamed : SchemaFault → Prop) :
    Kept blamed fun _ outcome _ => BlamesOnly blamed outcome where
  ok := .ok
  refused fault hf := .error fun reason heq => by simp [heq, Fault.isMismatch] at hf
  schema _ h := .schema h
  bind h hf := h.bind hf
  next h hnext := h.next hnext

theorem checkFields_blamesOnly {checker : Checker} {s : StructDef} {args : List Ty}
    (harity : s.generics.length ≠ args.length →
      blamed (.genericArity s.name s.generics.length args.length))
    (h : s.generics.length = args.length → ∀ f ∈ s.fields, ∀ v path,
      BlamesOnly blamed (checker (f.shape.1.substitute (Ty.bind s.generics args)) v path))
    (v : Json) (path : Path) : BlamesOnly blamed (checkFields checker s args v path) := by
  have hfields : s.generics.length = args.length → ∀ f ∈ s.fields,
      InStep (fun _ outcome _ => BlamesOnly blamed outcome) checker checker
        (f.shape.1.substitute (Ty.bind s.generics args))
        (f.shape.1.substitute (Ty.bind s.generics args)) := h
  exact checkFields_inStep (kept_blamesOnly blamed) rfl harity hfields v path

/-- **On types of a kind that hands on to its own kind only**, the check blames nothing but what
    such a type is itself at fault with. The induction is on the levels. -/
theorem check_blamesOnly {types : TypeTable} {fine : Ty → Prop}
    (hfine : ∀ ty inner, fine ty → Hands types ty inner → fine inner)
    (hown : ∀ ty reason, fine ty → OwnFault types ty reason → blamed reason) (left : Nat) (ty : Ty)
    (v : Json) (path : Path) (h : fine ty) : BlamesOnly blamed (check types left ty v path) := by
  induction left generalizing ty v path with
  | zero => exact .error fun reason heq => by cases heq
  | succ left ih =>
    rw [check_succ]
    have hinside : ∀ inner, Hands types ty inner →
        InStep (fun _ outcome _ => BlamesOnly blamed outcome) (check types left)
          (check types left) inner inner :=
      fun inner hinner v path => ih inner v path (hfine ty inner h hinner)
    exact checkStep_inStep (kept_blamesOnly blamed) (fun reason => hown ty reason h) hinside v path

end WireContract.Wire
