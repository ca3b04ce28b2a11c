import WireContract.Proofs.Wire.SchemaFree
import WireContract.Service.Dispatch

/-!
# A registry that generates serves without faults of its types

Client code can only be generated for a registry whose types are all in order as far as the methods
lead to them, and the server looks at no others. So neither a body nor a result of a handler, nor a
whole request, ever ends in a fault of a type.

* `decode_schemaFree`, `encode_schemaFree`: the codec of a registered method;
* `Always`: what holds of every result of a computation with effects;
* `generate_excludes_schema_faults`: codec, checks and dispatch together.
-/

namespace WireContract

open Wire Bindings

/-! ## 1. Codecs -/

section Codecs

variable {r : Registry} {m : Method}

theorem decode_schemaFree (hr : r.WellFormed) (hm : m ∈ r.methods) (body : List UInt8) :
    SchemaFree (m.decode r.types body) := by
  have hparams : r.Covers (.reference m.params) :=
    Registry.covers_of_expresses hr (Or.inl ⟨m, hm, List.mem_cons_self⟩)
  obtain ⟨definition, hget, hlen, hall⟩ := hparams.body hr
  obtain ⟨s, hs⟩ := hr.parameters m hm
  obtain rfl := Except.ok.inj (hs.symm.trans hget)
  rw [Codec.decode]
  split
  · exact fun _ h => nomatch h
  · rw [Codec.arguments, hs]
    refine checkFields_blamesOnly (fun hl => hl hlen.symm) ?_ _ []
    exact fun _ f hf v path => check_schemaFree hr _ _ v path (hall _ (List.mem_map_of_mem hf))

theorem encode_schemaFree (hr : r.WellFormed) (hm : m ∈ r.methods) (result : Json) :
    SchemaFree (m.encode r.types result) := by
  have hreturns : r.Covers m.returns :=
    Registry.covers_of_expresses hr (Or.inl ⟨m, hm, by simp [Method.expressions]⟩)
  exact BlamesOnly.map Json.render (check_schemaFree hr _ m.returns result [] hreturns)

end Codecs

namespace Service

/-- Whether every result of a computation has a property: it is a computation whose results bring
    the property along, with the property forgotten. -/
def Always {m : Type → Type} [Functor m] {α : Type} (p : α → Prop) (x : m α) : Prop :=
  ∃ y : m {a // p a}, Subtype.val <$> y = x

theorem Always.pure {m : Type → Type} [Monad m] [LawfulMonad m] {α : Type} {p : α → Prop} {a : α}
    (h : p a) : Always p (pure a : m α) :=
  ⟨Pure.pure ⟨a, h⟩, map_pure ..⟩

theorem Always.map {m : Type → Type} [Monad m] [LawfulMonad m] {α β : Type} {p : β → Prop}
    {f : α → β} (h : ∀ a, p (f a)) (x : m α) : Always p (f <$> x) :=
  ⟨(fun a => ⟨f a, h a⟩) <$> x, by rw [← comp_map]; rfl⟩

section Effects

variable {m : Type → Type} [Monad m] [LawfulMonad m] {α β : Type} {p q : α → Prop} {r : β → Prop}

theorem Always.mono {x : m α} (h : Always p x) (hpq : ∀ a, p a → q a) : Always q x := by
  obtain ⟨y, rfl⟩ := h
  exact ⟨(fun a => ⟨a.1, hpq a.1 a.2⟩) <$> y, by rw [← comp_map]; rfl⟩

theorem Always.bind {x : m α} {f : α → m β} (h : Always p x) (hf : ∀ a, p a → Always r (f a)) :
    Always r (x >>= f) := by
  obtain ⟨y, rfl⟩ := h
  choose g hg using hf
  refine ⟨y >>= fun a => g a.1 a.2, ?_⟩
  rw [map_bind, bind_map_left]
  exact bind_congr fun a => hg a.1 a.2

/-- The results of a computation brought to another form. -/
theorem Always.map_of {x : m α} {f : α → β} (h : Always p x) (hf : ∀ a, p a → r (f a)) :
    Always r (f <$> x) := by
  rw [map_eq_pure_bind]
  exact h.bind fun a ha => .pure (hf a ha)

/-- Without effects there is the one result. The functor is the one of the monad. -/
theorem Always.of_id {a : α} (h : @Always Id Id.instMonad.toFunctor α p a) : p a := by
  obtain ⟨b, rfl⟩ := h
  exact b.2

end Effects

/-! ## 2. Requests -/

section Requests

variable {σ S : Type} {d : Dispatcher σ S} {m : Method}

theorem arguments_schemaFree (hd : d.registry.WellFormed) (hm : m ∈ d.registry.methods)
    (request : Request) (reason : SchemaFault) :
    d.arguments request m ≠ .error (.schema reason) := by
  have hdecode := decode_schemaFree hd hm request.body
  unfold Dispatcher.arguments
  split
  · simp
  · rename_i fault hfault
    exact absurd hfault (hdecode fault)
  · simp

theorem session_schemaFree (d : Dispatcher σ S) (m : Method) (c : Credentials)
    (reason : SchemaFault) : d.session m c ≠ .error (.schema reason) := by
  unfold Dispatcher.session
  split
  · split
    · simp
    · split <;> simp
  · simp

/-- What comes of the checks behind the rate limit: a fault of the arguments, a fault of the
    session, or a call of the method. -/
theorem admitted_cases (d : Dispatcher σ S) (request : Request) (m : Method) :
    (∃ fault, d.arguments request m = .error fault ∧ d.admitted request m = .error fault) ∨
      (∃ c fault, d.session m c = .error fault ∧ d.admitted request m = .error fault) ∨
      ∃ call, call.method = m ∧ d.admitted request m = .ok call := by
  unfold Dispatcher.admitted
  cases harguments : d.arguments request m with
  | error fault => exact Or.inl ⟨fault, rfl, rfl⟩
  | ok arguments =>
    refine Or.inr ?_
    cases hsession : d.session m (Credentials.ofHeader? request.cookie) with
    | error fault =>
      refine Or.inl ⟨_, fault, hsession, ?_⟩
      simp only [bind, Except.bind, hsession]
    | ok session =>
      simp only [bind, Except.bind, hsession]
      exact Or.inr ⟨_, rfl, rfl⟩

theorem admitted_schemaFree (hd : d.registry.WellFormed) (hm : m ∈ d.registry.methods)
    (request : Request) (reason : SchemaFault) :
    d.admitted request m ≠ .error (.schema reason) := by
  intro heq
  obtain ⟨fault, hfault, h⟩ | ⟨c, fault, hfault, h⟩ | ⟨call, -, h⟩ := admitted_cases d request m
  · obtain rfl := Except.error.inj (h.symm.trans heq)
    exact arguments_schemaFree hd hm request reason hfault
  · obtain rfl := Except.error.inj (h.symm.trans heq)
    exact session_schemaFree d m c reason hfault
  · cases h.symm.trans heq

theorem method_of_admitted {request : Request} {call : Call S}
    (h : d.admitted request m = .ok call) : call.method = m := by
  obtain ⟨fault, -, hfault⟩ | ⟨c, fault, -, hfault⟩ | ⟨other, hmethod, hother⟩ :=
    admitted_cases d request m
  · cases hfault.symm.trans h
  · cases hfault.symm.trans h
  · rwa [← Except.ok.inj (hother.symm.trans h)]

/-- What the checks leave: no fault of a type, and a call of a registered method only. -/
theorem prepare_schemaFree (hd : d.registry.WellFormed) (now : Nat) (request : Request) (s : σ) :
    (∀ reason, (d.prepare now request s).1 ≠ .error (.schema reason)) ∧
      ∀ call, (d.prepare now request s).1 = .ok call → call.method ∈ d.registry.methods := by
  unfold Dispatcher.prepare
  dsimp only
  split
  · exact ⟨by simp, by simp⟩
  · rename_i m hmethod
    have hm : m ∈ d.registry.methods := List.mem_of_find?_eq_some hmethod
    split
    · exact ⟨by simp, by simp⟩
    · exact ⟨admitted_schemaFree hd hm request, fun call heq => (method_of_admitted heq).symm ▸ hm⟩

theorem respond_schemaFree (hd : d.registry.WellFormed) (hm : m ∈ d.registry.methods)
    (handled : Handled) (reason : SchemaFault) :
    d.respond m handled ≠ .error (.schema reason) := by
  unfold Dispatcher.respond
  split
  · simp
  · rename_i result _
    have hencode := encode_schemaFree hd hm result
    split
    · simp
    · rename_i fault hfault
      exact absurd hfault (hencode fault)
    · simp

theorem dispatch_schemaFree {e : Type → Type} [Monad e] [LawfulMonad e]
    (hd : d.registry.WellFormed) (now : Nat) (request : Request) (handler : Call S → e Handled)
    (s : σ) :
    Always (fun out => ∀ reason, out.1 ≠ .error (.schema reason))
      (d.dispatch now request handler s) := by
  obtain ⟨hfree, hmethod⟩ := prepare_schemaFree hd now request s
  unfold Dispatcher.dispatch
  generalize d.prepare now request s = prepared at hfree hmethod
  rcases prepared with ⟨fault | call, s⟩
  · exact .pure fun reason heq => hfree reason (congrArg Except.error (Except.error.inj heq))
  · have hm := hmethod call rfl
    simp only [bind_pure_comp]
    exact .map (fun handled => respond_schemaFree hd hm handled) (handler call)

end Requests

/-- **A registry that generates never fails on its types when it serves**: not on reading a body,
    not on writing a result, not on checking a request, and not on handling one, whatever the
    handler does. -/
theorem generate_excludes_schema_faults {r : Registry} {options : Options} {b : Bindings}
    (h : generate r options = .ok b) :
    (∀ m ∈ r.methods, (∀ body, SchemaFree (m.decode r.types body)) ∧
      ∀ result, SchemaFree (m.encode r.types result)) ∧
    ∀ (σ S : Type) (d : Dispatcher σ S), d.registry = r → ∀ now request s,
      (∀ reason, (d.prepare now request s).1 ≠ .error (.schema reason)) ∧
      ∀ (e : Type → Type) [Monad e] [LawfulMonad e] (handler : Call S → e Handled),
        Always (fun out => ∀ reason, out.1 ≠ .error (.schema reason))
          (d.dispatch now request handler s) := by
  have hr : r.WellFormed := wellFormed_of_generate h
  refine ⟨fun m hm => ⟨decode_schemaFree hr hm, encode_schemaFree hr hm⟩, ?_⟩
  rintro σ S d rfl now request s
  exact ⟨(prepare_schemaFree hr now request s).1,
    fun e _ _ handler => dispatch_schemaFree hr now request handler s⟩

theorem generate_excludes_schema_faults_forest :
    ∃ b, generate forest {} = .ok b ∧
      ∀ m ∈ forest.methods, ∀ body, SchemaFree (m.decode forest.types body) := by
  obtain ⟨b, hb⟩ : ∃ b, generate forest {} = .ok b := ⟨_, rfl⟩
  exact ⟨b, hb, fun m hm => ((generate_excludes_schema_faults hb).1 m hm).1⟩

end Service

end WireContract
