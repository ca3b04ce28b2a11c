import Mathlib.Data.List.Induction
import WireContract.Proofs.InPlace.Table

/-!
# A registry written in place

A registry is kept as a table in columns and a map from names to descriptors, and registering writes
to the one before the other, with a loop over the parameters in between. A descriptor says twice
where its parameters are and what its method returns: on its own and in its codec.

* `Directory`: a registry as it is kept, and `register`, as it is written;
* `gather_eq`: what the loop over the parameters collects is what the signature says;
* `register_on`, `register_cases`: registering in place is registering, and a call that fails has
  written nothing;
* `Coherent.register`, `Registered`: what one call keeps, and which calls a run remembers;
* `registrations_keep_in_step`: what holds behind any calls, of which any may have failed.
-/

namespace WireContract

open InPlace

namespace Registry

/-- The registry behind some calls; one that fails leaves it as it was. -/
def after (r : Registry) (calls : List Signature) : Registry :=
  calls.foldl (fun r s =>
    match r.register s with
    | .ok (_, r') => r'
    | .error _ => r) r

theorem after_concat (r : Registry) (calls : List Signature) (s : Signature) :
    r.after (calls ++ [s]) =
      match (r.after calls).register s with
      | .ok (_, r') => r'
      | .error _ => r.after calls := by
  rw [after, List.foldl_append]
  rfl

end Registry

/-! ## 1. The registry as it is kept -/

/-- A method as it is kept. -/
structure Descriptor where
  name : String
  doc : Option String
  params : DefId
  returns : Ty
  usesSession : Bool
  sessionOptional : Bool
  usesCredentials : Bool
  rateLimit : Nat
  codec : Codec

/-- The method that a descriptor describes. -/
def Descriptor.method (d : Descriptor) : Method :=
  { params := d.params
    returns := d.returns
    name := d.name
    doc := d.doc
    usesSession := d.usesSession
    sessionOptional := d.sessionOptional
    usesCredentials := d.usesCredentials
    rateLimit := d.rateLimit }

/-- A descriptor in which both places agree. -/
def Descriptor.of (m : Method) : Descriptor :=
  { name := m.name
    doc := m.doc
    params := m.params
    returns := m.returns
    usesSession := m.usesSession
    sessionOptional := m.sessionOptional
    usesCredentials := m.usesCredentials
    rateLimit := m.rateLimit
    codec := m.toCodec }

/-- What the loop over the parameters has collected. -/
structure Gathered where
  usesSession : Bool := false
  sessionOptional : Bool := false
  usesCredentials : Bool := false
  fields : List Field := []

/-- One turn of the loop: a supplied parameter is noted, any other becomes a field. -/
def Gathered.add (g : Gathered) (p : Param) : Gathered :=
  if p.name = sessionParameter then
    { g with usesSession := true, sessionOptional := p.ty.admitsAbsence }
  else if p.name = credentialsParameter then { g with usesCredentials := true }
  else { g with fields := g.fields ++ [p.field] }

/-- The methods under their names, and beside them the table. -/
structure Directory where
  types : Columns := {}
  methods : Entries Descriptor := []

namespace Directory

/-- The registry that a directory makes up. -/
def registry (d : Directory) : Registry :=
  { types := d.types.table, methods := d.methods.map (·.2.method) }

/-- A call on the table of a directory. -/
def inTypes {α : Type} (x : InPlace Columns α) : InPlace Directory α := do
  let d ← get
  modify fun d => { d with types := (on x d.types).2 }
  MonadExcept.ofExcept (on x d.types).1

@[simp] theorem on_inTypes {α : Type} (x : InPlace Columns α) (d : Directory) :
    on (inTypes x) d = ((on x d.types).1, { d with types := (on x d.types).2 }) := by
  simp [inTypes]

/-- Register a signature. A descriptor that is there under the name is not written over. -/
def register (s : Signature) : InPlace Directory Descriptor := do
  refuseIf (!Text.isIdentifier s.name) (.invalidIdentifier s.name)
  let d ← get
  refuseIf (d.methods.has s.name) (.duplicateMethod s.name)
  let gathered := s.params.foldl Gathered.add {}
  let parameters : StructDef := { name := parametersTypeName s.name, fields := gathered.fields }
  let params ← inTypes (Columns.insert (.struct parameters))
  let descriptor : Descriptor :=
    { name := s.name
      doc := s.doc
      params
      returns := s.returns
      usesSession := gathered.usesSession
      sessionOptional := gathered.sessionOptional
      usesCredentials := gathered.usesCredentials
      rateLimit := s.rateLimit
      codec := { params, returns := s.returns } }
  let d ← get
  let kept := (d.methods.get? s.name).getD descriptor
  modify fun d => { d with methods := d.methods.put s.name kept }
  return kept

/-! ## 2. One call -/

/-- **The loop over the parameters collects what the signature says.** -/
theorem gather_eq (s : Signature) :
    s.params.foldl Gathered.add {} =
      { usesSession := s.usesSession, sessionOptional := s.sessionOptional,
        usesCredentials := s.usesCredentials, fields := s.fields } := by
  obtain ⟨name, doc, params, returns, rateLimit⟩ := s
  -- the last parameter is the last turn
  induction params using List.reverseRecOn with
  | nil => rfl
  | append_singleton params p ih =>
    have hne : credentialsParameter ≠ sessionParameter := by decide
    rw [List.foldl_append, ih, List.foldl_cons, List.foldl_nil, Gathered.add]
    simp only [Signature.usesSession, Signature.sessionOptional, Signature.usesCredentials,
      Signature.fields, Signature.sessionTypes, List.filter_append, List.map_append,
      List.any_append]
    by_cases hsession : p.name = sessionParameter
    · simp [hsession, hne.symm, Param.isSupplied]
    · by_cases hcredentials : p.name = credentialsParameter
      · simp [hcredentials, hne, Param.isSupplied]
      · simp [hsession, hcredentials, Param.isSupplied]

/-- A directory in which what is kept twice agrees, and every method has a slot of its own. -/
structure Coherent (d : Directory) : Prop where
  indexed : d.types.Indexed
  keyed : ∀ e ∈ d.methods, e.2.name = e.1
  bounded : ∀ e ∈ d.methods, e.2.params < d.types.table.size
  distinct : (d.methods.map (·.2.params)).Nodup

section Call

variable {d : Directory}

/-- A name is taken in the map if it is in the list. -/
theorem Coherent.has_eq (hd : d.Coherent) (name : String) :
    d.methods.has name = (d.registry.method? name).isSome := by
  rw [Bool.eq_iff_iff, Entries.has, Option.isSome_iff_ne_none, Option.isSome_iff_ne_none,
    not_iff_not, Entries.get?_eq_none_iff, Registry.method?_eq_none_iff]
  constructor
  · rintro hnew m hm rfl
    obtain ⟨e, he, rfl⟩ := List.mem_map.mp hm
    exact hnew (List.mem_map.mpr ⟨e, he, (hd.keyed e he).symm⟩)
  · rintro hnew hkey
    obtain ⟨e, he, rfl⟩ := List.mem_map.mp hkey
    exact hnew e.2.method (List.mem_map_of_mem he) (hd.keyed e he)

/-- **Registering in place is registering**: a call that fails has written nothing, and one that
    succeeds has put the method under its name and the struct of its parameters behind the slots. -/
theorem register_on (hd : d.Coherent) (s : Signature) :
    on (register s) d =
      match d.registry.register s with
      | .error fault => (.error fault, d)
      | .ok (m, r) =>
        (.ok (.of m),
          { types :=
              { slots := r.types.slots
                index := d.types.index.put (parametersTypeName s.name) m.params }
            methods := d.methods.put s.name (.of m) }) := by
  rw [register, Registry.register, gather_eq]
  simp only [on_bind, on_refuseIf, on_get, on_inTypes]
  cases Text.isIdentifier s.name with
  | false => rfl
  | true =>
    cases hknown : (d.registry.method? s.name).isSome with
    | true =>
      have hhas : d.methods.has s.name = true := (hd.has_eq s.name).trans hknown
      simp [hhas]
    | false =>
      have hhas : d.methods.has s.name = false := (hd.has_eq s.name).trans hknown
      have hfree : d.methods.get? s.name = none :=
        Option.isNone_iff_eq_none.mp (Option.isSome_eq_false_iff.mp hhas)
      have hinsert := Columns.insert_on hd.indexed (.struct s.parameters)
      have hparameters : ({ name := parametersTypeName s.name, fields := s.fields } : StructDef) =
        s.parameters := rfl
      have htypes : d.registry.types = d.types.table := rfl
      simp only [hparameters, htypes, hhas, hinsert, Bool.not_true, Bool.false_eq_true, if_false]
      cases d.types.table.insert (.struct s.parameters) with
      | error fault => rfl
      | ok inserted =>
        simp only [hfree, Option.getD_none]
        rfl

/-- What a call that succeeds has written: the method under its name, which is new, and a slot more
    with the struct of the parameters. -/
structure Puts (d : Directory) (s : Signature) (m : Descriptor) (d' : Directory) : Prop where
  described : m = .of (s.method d.types.table.size)
  new : s.name ∉ d.methods.keys
  new_type : parametersTypeName s.name ∉ d.types.table.names
  slots : d'.types.slots = d.types.slots ++ [.defined (.struct s.parameters)]
  index : d'.types.index = d.types.index.put (parametersTypeName s.name) d.types.slots.length
  methods : d'.methods = d.methods.put s.name m

/-- **A call fails and has written nothing, or it has put its method there**; and it does so exactly
    if the registry takes the signature. -/
theorem register_cases (hd : d.Coherent) (s : Signature) :
    (∃ fault, d.registry.register s = .error fault ∧ on (register s) d = (.error fault, d)) ∨
      ∃ m r d', d.registry.register s = .ok (m, r) ∧ on (register s) d = (.ok (.of m), d') ∧
        d'.registry = r ∧ d.Puts s (.of m) d' := by
  rw [register_on hd]
  cases hregistered : d.registry.register s with
  | error fault => exact .inl ⟨fault, rfl, rfl⟩
  | ok registered =>
    obtain ⟨m, r⟩ := registered
    obtain ⟨rfl, hmethods, hslots⟩ := Registry.register_yields d.registry s _ hregistered
    have haccepts := Registry.register_accepts d.registry s _ hregistered
    have hnew : s.name ∉ d.methods.keys := fun hkey => by
      obtain ⟨e, he, hname⟩ := List.mem_map.mp hkey
      exact haccepts.new e.2.method (List.mem_map_of_mem he) ((hd.keyed e he).trans hname)
    refine .inr ⟨_, r, _, rfl, rfl, ?_, rfl, hnew, haccepts.parameters_new, hslots, rfl, rfl⟩
    obtain ⟨⟨slots⟩, methods⟩ := r
    rw [registry, Entries.put_of_not_mem _ _ _ hnew, List.map_append]
    exact congrArg _ hmethods.symm

variable {s : Signature} {m : Descriptor} {d' : Directory}

/-- **A call keeps the directory coherent.** -/
theorem Coherent.puts (hd : d.Coherent) (h : d.Puts s m d') : d'.Coherent := by
  have hsize : d'.types.table.size = d.types.table.size + 1 := TypeTable.size_of_insert h.slots
  have hmethods := h.methods
  rw [Entries.put_of_not_mem _ _ _ h.new] at hmethods
  obtain rfl := h.described
  have hname : (Slot.defined (.struct s.parameters)).name ∉ d.types.table.names := h.new_type
  refine ⟨hd.indexed.concat hname h.slots h.index, ?_, ?_, ?_⟩
  · rw [hmethods]
    exact List.forall_mem_append.mpr ⟨hd.keyed, List.forall_mem_singleton.mpr rfl⟩
  · rw [hmethods, hsize]
    exact List.forall_mem_append.mpr ⟨fun e he => Nat.lt_succ_of_lt (hd.bounded e he),
      List.forall_mem_singleton.mpr (Nat.lt_succ_self _)⟩
  · rw [hmethods, List.map_append, List.map_singleton, ← List.concat_eq_append]
    refine hd.distinct.concat fun hmem => ?_
    obtain ⟨e, he, hsame⟩ := List.mem_map.mp hmem
    exact Nat.ne_of_lt (hd.bounded e he) hsame

theorem Coherent.register (hd : d.Coherent) (s : Signature) :
    (on (Directory.register s) d).2.Coherent := by
  obtain ⟨fault, -, hon⟩ | ⟨m, r, d', -, hon, -, hputs⟩ := register_cases hd s
  · rw [hon]
    exact hd
  · rw [hon]
    exact hd.puts hputs

end Call

/-! ## 3. Any number of calls -/

section Calls

variable {d start : Directory} {calls : List Signature} {s : Signature} {m : Descriptor}

/-- The directory behind some calls, of which any may have failed. -/
def after (d : Directory) (calls : List Signature) : Directory :=
  calls.foldl (fun d s => (on (register s) d).2) d

theorem after_concat (d : Directory) (calls : List Signature) (s : Signature) :
    d.after (calls ++ [s]) = (on (register s) (d.after calls)).2 := by
  rw [after, List.foldl_append]
  rfl

theorem after_append (d : Directory) (calls more : List Signature) :
    d.after (calls ++ more) = (d.after calls).after more :=
  List.foldl_append

theorem Coherent.after (hd : d.Coherent) (calls : List Signature) : (d.after calls).Coherent := by
  induction calls using List.reverseRecOn with
  | nil => exact hd
  | append_singleton calls s ih =>
    rw [after_concat]
    exact ih.register s

/-- What is defined stays defined. -/
theorem Coherent.get_after (hd : d.Coherent) {id : DefId} {body : Definition}
    (h : d.types.table.get id = .ok body) (calls : List Signature) :
    (d.after calls).types.table.get id = .ok body := by
  induction calls using List.reverseRecOn with
  | nil => exact h
  | append_singleton calls s ih =>
    rw [after_concat]
    obtain ⟨fault, -, hon⟩ | ⟨m, r, d', -, hon, -, hputs⟩ := register_cases (hd.after calls) s
    · rw [hon]
      exact ih
    · rw [hon]
      have hslots : d'.types.table.slots = _ ++ [_] := hputs.slots
      exact TypeTable.get_insert_of_get hslots ih

/-- One of the calls registered the signature and returned the descriptor. -/
def Registered (start : Directory) (calls : List Signature) (s : Signature) (m : Descriptor) :
    Prop :=
  ∃ before rest, calls = before ++ s :: rest ∧ (on (register s) (start.after before)).1 = .ok m

/-- What a call returned is a method with a slot of its own, and there it stays. -/
theorem Coherent.registered (hd : start.Coherent) (h : start.Registered calls s m) :
    m = .of (s.method m.params) ∧
      (start.after calls).types.table.get m.params = .ok (.struct s.parameters) := by
  obtain ⟨before, rest, rfl, hok⟩ := h
  obtain ⟨fault, -, hon⟩ | ⟨m', r, d', -, hon, -, hputs⟩ := register_cases (hd.after before) s
  · rw [hon] at hok
    cases hok
  · rw [hon] at hok
    cases hok
    have hslots : d'.types.table.slots = (start.after before).types.table.slots ++ [_] :=
      hputs.slots
    have hstep : start.after (before ++ s :: rest) = d'.after rest := by
      rw [after_append]
      exact congrArg (fun d => Directory.after d rest) (congrArg Prod.snd hon)
    have hdescribed := hputs.described
    have hparams := congrArg Descriptor.params hdescribed
    refine ⟨hparams ▸ hdescribed, ?_⟩
    rw [hstep, hparams]
    exact ((hd.after before).puts hputs).get_after (TypeTable.get_insert_self hslots) rest

/-- The second call fails at the struct of its parameters, the third at its own name. -/
example :
    (after {} [
      { name := "get_todos", returns := .any },
      { name := "getTodos", returns := .any },
      { name := "get_todos", returns := .any }]).methods.keys = ["get_todos"] := by
  decide +kernel

end Calls

end Directory

end WireContract
