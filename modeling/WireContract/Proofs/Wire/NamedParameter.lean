import WireContract.Proofs.Type.Unfolding
import WireContract.Proofs.Wire.Omissible
import WireContract.Proofs.Wire.Parameters

/-!
# Parameters of a named type

A type that a signature has for a parameter can be given a name: an alias goes into the table, and
the parameter refers to it. What a body may hold for the parameter is the same then, but the name
hides what the type says of absence. Whether a parameter may be left out, and whether a method may
be called without a session, is read off the type as it is written.

* `checkFrom_reference_deepens`, `checkFrom_reference_affirms`: the value of a parameter behind a
  name and in front of it;
* `NamesParameter`: two methods of which one has a name where the other has the type;
* `accepted_iff_of_some`, `accepted_iff_of_null`, `accepted_iff_of_none`: what they accept, by what
  a body holds for the parameter;
* `register_named`: such methods come about by registration;
* `naming_keeps_acceptance`: what the name leaves as it was, and what not.
-/

namespace WireContract

open Wire

/-! ## 1. A named type -/

namespace Wire

/-- A field of a struct without type parameters is content with what its shape takes. -/
theorem fieldFits_iff_of_some {fits : Ty → Json → Prop} {object : Entries Json} {f : Field}
    {v : Json} (hget : object.get? f.name = some v) :
    FieldFits fits [] object f ↔ fits f.shape.1 v := by
  rw [fieldFits_of_some hget, Ty.substitute_nil]

section Field

variable {types types' : TypeTable} {hidden : DefId → Prop} (htypes : types.AgreesOff hidden types')
  {object : Entries Json} {f : Field} (hf : ∀ id ∈ f.ty.mentions, ¬ hidden id)

/-- A reference to an alias without parameters is checked like the body of the alias, one level
    deeper. -/
theorem check_reference {target : DefId} {name : String} {ty : Ty}
    (h : types.get target = .ok (.alias { name, ty })) (left : Nat) (v : Json) (path : Path) :
    check types (left + 1) (.reference target) v path = check types left ty v path := by
  rw [Ty.reference, check_named h]
  change check types left (ty.substitute []) v path = _
  rw [Ty.substitute_nil]

include htypes hf

/-- A field that does not lead to where the tables differ is content with the same. -/
theorem fieldFits_iff_of_agreesOff :
    FieldFits (AcceptsAt (checkFrom types' 0) [] f) [] object f ↔
      FieldFits (AcceptsAt (checkFrom types 0) [] f) [] object f := by
  have hshape : ∀ id ∈ f.shape.1.mentions, ¬ hidden id := f.mentions_shape.symm ▸ hf
  cases hget : object.get? f.name with
  | none => rw [fieldFits_of_none hget, fieldFits_of_none hget]
  | some v =>
    rw [fieldFits_iff_of_some hget, fieldFits_iff_of_some hget, AcceptsAt, AcceptsAt, checkFrom,
      checkFrom, check_eq_of_agreesOff htypes _ hshape]

end Field

/-- What a field is content with, it is content with as far as the levels go. -/
theorem FieldFits.affirms {checker : Checker} {path : Path} {object : Entries Json} {f : Field}
    (h : FieldFits (AcceptsAt checker path f) [] object f) :
    FieldFits (AffirmsAt checker path f) [] object f := by
  cases hget : object.get? f.name with
  | none => exact (fieldFits_of_none hget).mpr ((fieldFits_of_none hget).mp h)
  | some v => exact (fieldFits_of_some hget).mpr (.inl ((fieldFits_of_some hget).mp h))

section Named

variable {types types' : TypeTable} {hidden : DefId → Prop} (htypes : types.AgreesOff hidden types')
  {p : Param} (hp : ∀ id ∈ p.ty.mentions, ¬ hidden id) {name : String} {target : DefId}
  (halias : types'.get target = .ok (.alias { name, ty := p.ty })) {object : Entries Json}

/-- The field of a parameter of a named type is required unless it has a default. -/
theorem shape_field_reference (p : Param) (target : DefId) :
    (p.retype (.reference target)).field.shape = (.reference target, p.default.isSome) := by
  rw [Field.shape_of_not_omissible rfl]
  simp [Param.field, Param.retype]

theorem fieldFits_reference_of_none {fits : Ty → Json → Prop} (target : DefId)
    (hget : object.get? p.name = none) :
    FieldFits fits [] object (p.retype (.reference target)).field ↔ p.default.isSome = true := by
  rw [fieldFits_of_none_iff hget, shape_field_reference]

theorem fieldFits_reference_of_some {fits : Ty → Json → Prop} {v : Json}
    (hget : object.get? p.name = some v) :
    FieldFits fits [] object (p.retype (.reference target)).field ↔ fits (.reference target) v := by
  have hgetField : object.get? (p.retype (.reference target)).field.name = some v := hget
  rw [fieldFits_iff_of_some hgetField, shape_field_reference]

include htypes hp halias

/-- The check of a named type is one of the type itself, one level deeper. -/
theorem checkFrom_reference_eq (v : Json) (path : Path) :
    checkFrom types' 0 (.reference target) v path = check types (depthLimit - 1) p.ty v path := by
  have hdepth : checkFrom types' 0 = check types' (depthLimit - 1 + 1) := rfl
  rw [hdepth, check_reference halias, check_eq_of_agreesOff htypes _ hp]

/-- What is not null is taken behind the name like in front of it, and anything is taken so if the
    type does not say of itself that it may be missing. -/
theorem checkFrom_reference_deepens {v : Json} (hv : p.ty.isOmissible = true → v.isNull = false)
    (path : Path) :
    Deepens (checkFrom types' 0 (.reference target) v path)
      (checkFrom types 0 p.field.shape.1 v path) := by
  rw [checkFrom_reference_eq htypes hp halias]
  exact check_shape_deepens (f := p.field) (depthLimit - 1) hv path

theorem checkFrom_reference_affirms (h : p.ty.isOmissible = true) {path : Path}
    (hok : Accepted (checkFrom types 0 p.field.shape.1 .null path)) :
    Affirms (checkFrom types' 0 (.reference target) .null path) := by
  rw [checkFrom_reference_eq htypes hp halias]
  exact check_shape_affirms (f := p.field) (depthLimit - 1) h hok

end Named

end Wire

/-! ## 2. Two methods -/

/-- Two methods over two tables: the parameters of one are those of a signature, and for the other
    the type of one parameter is given a name. The tables differ in the new definitions only, and no
    field leads there. -/
structure NamesParameter (s : Signature) (before : List Param) (p : Param) (after : List Param)
    (hidden : DefId → Prop) (types types' : TypeTable) (plain named : Codec) (target : DefId)
    (name : String) : Prop where
  params : s.params = before ++ p :: after
  agrees : types.AgreesOff hidden types'
  fields : ∀ f ∈ s.fields, ∀ id ∈ f.ty.mentions, ¬ hidden id
  «alias» : types'.get target = .ok (.alias { name, ty := p.ty })
  plain : types.get plain.params = .ok (.struct s.parameters)
  named : types'.get named.params =
    .ok (.struct (s.retype before p after (.reference target)).parameters)

namespace NamesParameter

variable {s : Signature} {before after : List Param} {p : Param} {hidden : DefId → Prop}
  {types types' : TypeTable} {plain named : Codec} {target : DefId} {name : String}
  (h : NamesParameter s before p after hidden types types' plain named target name)
  {body : List UInt8} {object : Entries Json}

include h

theorem mentions (hp : p.isSupplied = false) : ∀ id ∈ p.ty.mentions, ¬ hidden id :=
  ((Signature.forall_fields_iff h.params _).mp h.fields).2 hp

theorem plain_accepted_iff (hread : Json.read body = .ok (.object object)) :
    Accepted (plain.decode types body) ↔
      (∀ q ∈ before ++ after, q.isSupplied = false →
        FieldFits (AcceptsAt (checkFrom types 0) [] q.field) [] object q.field) ∧
      (p.isSupplied = false →
        FieldFits (AcceptsAt (checkFrom types 0) [] p.field) [] object p.field) := by
  rw [Codec.decode_accepted_iff h.plain rfl hread]
  exact Signature.forall_fields_iff h.params _

/-- The other parameters say the same of a body. -/
theorem others_iff :
    (∀ q ∈ before ++ after, q.isSupplied = false →
        FieldFits (AcceptsAt (checkFrom types' 0) [] q.field) [] object q.field) ↔
      ∀ q ∈ before ++ after, q.isSupplied = false →
        FieldFits (AcceptsAt (checkFrom types 0) [] q.field) [] object q.field :=
  forall₂_congr fun q hq => forall_congr' fun hsupplied =>
    fieldFits_iff_of_agreesOff h.agrees
      (((Signature.forall_fields_iff h.params _).mp h.fields).1 q hq hsupplied)

theorem named_accepted_iff (hread : Json.read body = .ok (.object object)) :
    Accepted (named.decode types' body) ↔
      (∀ q ∈ before ++ after, q.isSupplied = false →
        FieldFits (AcceptsAt (checkFrom types 0) [] q.field) [] object q.field) ∧
      (p.isSupplied = false →
        FieldFits (AcceptsAt (checkFrom types' 0) [] (p.retype (.reference target)).field) []
          object (p.retype (.reference target)).field) := by
  rw [Codec.decode_accepted_iff h.named rfl hread, ← h.others_iff]
  exact s.forall_fields_retype_iff before p after _ _

/-- What the others accept, and the parameter as far as the levels go, is accepted as far as the
    levels go. -/
theorem named_affirms (hread : Json.read body = .ok (.object object))
    (hothers : ∀ q ∈ before ++ after, q.isSupplied = false →
      FieldFits (AcceptsAt (checkFrom types 0) [] q.field) [] object q.field)
    (hown : p.isSupplied = false →
      FieldFits (AffirmsAt (checkFrom types' 0) [] (p.retype (.reference target)).field) []
        object (p.retype (.reference target)).field) :
    Affirms (named.decode types' body) := by
  refine Codec.decode_affirms h.named rfl hread ?_
  refine (s.forall_fields_retype_iff before p after _ _).mpr ⟨?_, hown⟩
  exact fun q hq hsupplied => (h.others_iff.mpr hothers q hq hsupplied).affirms

variable (hdeep : ¬ EndsTooDeep (named.decode types' body))

include hdeep

/-- **A value that is not null is taken alike**, and so is any value for a type that does not say of
    itself that it may be missing. -/
theorem accepted_iff_of_some (hread : Json.read body = .ok (.object object)) {v : Json}
    (hget : object.get? p.name = some v) (hv : p.ty.isOmissible = true → v.isNull = false) :
    Accepted (named.decode types' body) ↔ Accepted (plain.decode types body) := by
  have hgetField : object.get? p.field.name = some v := hget
  have hdeepens := fun hp => checkFrom_reference_deepens h.agrees (h.mentions hp) h.alias hv
    [.member p.name]
  rw [h.plain_accepted_iff hread]
  constructor
  · rw [h.named_accepted_iff hread]
    refine And.imp_right fun hown hp => (fieldFits_iff_of_some hgetField).mpr ?_
    exact (hdeepens hp).accepted ((fieldFits_reference_of_some hget).mp (hown hp))
  · rintro ⟨hothers, hown⟩
    refine (h.named_affirms hread hothers fun hp => ?_).resolve_right hdeep
    exact (fieldFits_reference_of_some hget).mpr
      ((hdeepens hp).affirms ((fieldFits_iff_of_some hgetField).mp (hown hp)))

/-- Null is taken behind the name; in front of it, only if the rest of the type takes it. -/
theorem accepted_iff_of_null (hread : Json.read body = .ok (.object object))
    (hget : object.get? p.name = some .null) (hp : p.isSupplied = false)
    (homissible : p.ty.isOmissible = true) :
    Accepted (plain.decode types body) ↔
      Accepted (named.decode types' body) ∧
        Accepted (checkFrom types 0 p.field.shape.1 .null [.member p.name]) := by
  have hgetField : object.get? p.field.name = some .null := hget
  rw [h.plain_accepted_iff hread]
  constructor
  · rintro ⟨hothers, hown⟩
    have hnull := (fieldFits_iff_of_some hgetField).mp (hown hp)
    refine ⟨(h.named_affirms hread hothers fun _ => ?_).resolve_right hdeep, hnull⟩
    exact (fieldFits_reference_of_some hget).mpr
      (checkFrom_reference_affirms h.agrees (h.mentions hp) h.alias homissible hnull)
  · rw [h.named_accepted_iff hread]
    rintro ⟨⟨hothers, -⟩, hnull⟩
    exact ⟨hothers, fun _ => (fieldFits_iff_of_some hgetField).mpr hnull⟩

omit hdeep

/-- **Behind the name the parameter may be left out only if it has a default.** -/
theorem accepted_iff_of_none (hread : Json.read body = .ok (.object object))
    (hget : object.get? p.name = none) (hp : p.isSupplied = false) :
    Accepted (named.decode types' body) ↔
      Accepted (plain.decode types body) ∧ p.default.isSome = true := by
  have hgetField : object.get? p.field.name = none := hget
  rw [h.plain_accepted_iff hread, h.named_accepted_iff hread]
  constructor
  · rintro ⟨hothers, hown⟩
    have hdefault := (fieldFits_reference_of_none target hget).mp (hown hp)
    exact ⟨⟨hothers, fun _ => (fieldFits_of_none hgetField).mpr (.inl hdefault)⟩, hdefault⟩
  · rintro ⟨⟨hothers, -⟩, hdefault⟩
    exact ⟨hothers, fun _ => (fieldFits_reference_of_none target hget).mpr hdefault⟩

/-- What the server supplies has no say in bodies. -/
theorem accepted_iff_of_supplied (hread : Json.read body = .ok (.object object))
    (hp : p.isSupplied = true) :
    Accepted (named.decode types' body) ↔ Accepted (plain.decode types body) := by
  rw [h.plain_accepted_iff hread, h.named_accepted_iff hread]
  refine and_congr_right fun _ => iff_of_true (fun hn => ?_) fun hn => ?_ <;>
    exact absurd (hp.symm.trans hn) Bool.noConfusion

include hdeep

/-- **Names are no different from what they stand for**, unless that says of itself that it may be
    missing. -/
theorem accepted_iff (hplain : p.isSupplied = true ∨ p.ty.isOmissible = false) :
    Accepted (named.decode types' body) ↔ Accepted (plain.decode types body) := by
  by_cases hobject : ∃ object : Entries Json, Json.read body = .ok (.object object)
  · obtain ⟨object, hread⟩ := hobject
    cases hsupplied : p.isSupplied with
    | true => exact h.accepted_iff_of_supplied hread hsupplied
    | false =>
      have homissible := hplain.resolve_left (by simp [hsupplied])
      cases hget : object.get? p.name with
      | some v =>
        exact h.accepted_iff_of_some hdeep hread hget fun ho => absurd ho (by simp [homissible])
      | none =>
        rw [h.accepted_iff_of_none hread hget hsupplied]
        refine and_iff_left_of_imp fun hok => ?_
        have hgetField : object.get? p.field.name = none := hget
        have hown := ((h.plain_accepted_iff hread).mp hok).2 hsupplied
        rw [fieldFits_of_none_iff hgetField, Field.shape_of_not_omissible homissible] at hown
        simpa [Param.field] using hown
  · have hbody := not_exists.mp hobject
    exact iff_of_false (Codec.not_decode_accepted h.named hbody)
      (Codec.not_decode_accepted h.plain hbody)

end NamesParameter

/-! ## 3. Registration -/

namespace Registry

/-- Whether no field of the signature and no definition refers ahead, to the numbers that the alias
    and the parameters are given next. -/
def NothingAhead (r : Registry) (s : Signature) : Prop :=
  ∀ id, id = r.types.size ∨ id = r.types.size + 1 →
    (∀ f ∈ s.fields, id ∉ f.ty.mentions) ∧
      ∀ other body, r.types.get other = .ok body → id ∉ body.mentions

variable {r r' : Registry} {s : Signature} {m : Method} {before after : List Param} {p : Param}
  {name : String} {target : DefId} {types : TypeTable}

/-- Where the type of a parameter is given a name, the signature with the name is registered, and
    the two methods differ by the name only. -/
theorem register_named (h : r.register s = .ok (m, r')) (hs : s.params = before ++ p :: after)
    (halias : r.types.insert (.alias { name, ty := p.ty }) = .ok (target, types))
    (hname : name ≠ parametersTypeName s.name) (hahead : r.NothingAhead s) :
    ∃ r₂, Registry.register { r with types } (s.retype before p after (.reference target)) =
        .ok ((s.retype before p after (.reference target)).method types.size, r₂) ∧
      NamesParameter s before p after (fun id => id = r.types.size ∨ id = r.types.size + 1)
        r'.types r₂.types m.toCodec
        ((s.retype before p after (.reference target)).method types.size).toCodec target name := by
  obtain ⟨rfl, -, hslots⟩ := register_yields r s _ h
  have haccepts := register_accepts r s _ h
  obtain ⟨rfl, haliasSlots⟩ := TypeTable.insert_yields r.types _ _ halias
  obtain ⟨-, -, hnames⟩ := TypeTable.insert_names r.types _ _ halias
  dsimp only at hslots haliasSlots hnames ⊢
  set s' := s.retype before p after (.reference r.types.size) with hs'
  have haccepts' : Registry.Accepts { r with types } s' :=
    { identifier := haccepts.identifier
      new := haccepts.new
      parameters_identifier := haccepts.parameters_identifier
      parameters_new := by
        change parametersTypeName s.name ∉ types.names
        rw [hnames, List.mem_append, List.mem_singleton, not_or]
        exact ⟨haccepts.parameters_new, hname.symm⟩ }
  have hsize : types.size = r.types.size + 1 := TypeTable.size_of_insert haliasSlots
  set table : TypeTable := { slots := types.slots ++ [.defined (.struct s'.parameters)] }
  have hslots' : table.slots = types.slots ++ [.defined (.struct s'.parameters)] := rfl
  refine ⟨_, haccepts'.register, ⟨hs, ⟨fun id hid => ?_, fun id body hid hget other hother => ?_⟩,
    fun f hf id hid hnext => (hahead id hnext).1 f hf hid, ?_, ?_, ?_⟩⟩
  · obtain ⟨hparams, hnext⟩ := not_or.mp hid
    rw [TypeTable.get_insert_of_ne hslots hparams,
      TypeTable.get_insert_of_ne hslots' (by rwa [hsize]),
      TypeTable.get_insert_of_ne haliasSlots hparams]
  · rw [TypeTable.get_insert_of_ne hslots (not_or.mp hid).1] at hget
    exact fun hnext => (hahead other hnext).2 id body hget hother
  · exact TypeTable.get_insert_of_get hslots' (TypeTable.get_insert_self haliasSlots)
  · exact TypeTable.get_insert_self hslots
  · exact TypeTable.get_insert_self hslots'

/-- **Naming a parameter's type does not change what is accepted, except for what the type itself
    says of absence.** With an option and with a union that has absence among its members, the
    parameter may be missing and must not be null, unless the rest of the type takes null; with a
    name for either it is the other way round. -/
theorem naming_keeps_acceptance (h : r.register s = .ok (m, r'))
    (hs : s.params = before ++ p :: after)
    (halias : r.types.insert (.alias { name, ty := p.ty }) = .ok (target, types))
    (hname : name ≠ parametersTypeName s.name) (hahead : r.NothingAhead s) :
    ∃ m₂ r₂, Registry.register { r with types }
        { s with params := before ++ { p with ty := .reference target } :: after } = .ok (m₂, r₂) ∧
      (∀ body, ¬ EndsTooDeep (m₂.decode r₂.types body) →
        -- a type that does not say that it may be missing: the same bodies
        (p.isSupplied = true ∨ p.ty.isOmissible = false →
          (Accepted (m₂.decode r₂.types body) ↔ Accepted (m.decode r'.types body))) ∧
        -- one that does: the same, as long as there is a value for the parameter
        (p.isSupplied = false → p.ty.isOmissible = true →
          (∀ object : Entries Json, Json.read body = .ok (.object object) →
            (∀ v, object.get? p.name = some v → v.isNull = false →
              (Accepted (m₂.decode r₂.types body) ↔ Accepted (m.decode r'.types body))) ∧
            -- null is taken behind the name, and else if the rest of the type takes it
            (object.get? p.name = some .null →
              (Accepted (m.decode r'.types body) ↔
                Accepted (m₂.decode r₂.types body) ∧
                  Accepted (checkFrom r'.types 0 p.field.shape.1 .null [.member p.name]))) ∧
            -- and behind the name it may be missing only if it has a default
            (object.get? p.name = none →
              (Accepted (m₂.decode r₂.types body) ↔
                Accepted (m.decode r'.types body) ∧ p.default.isSome = true))) ∧
          ((∀ object, Json.read body ≠ .ok (.object object)) →
            ¬ Accepted (m₂.decode r₂.types body) ∧ ¬ Accepted (m.decode r'.types body)))) ∧
      -- a session may be missing as before, unless the parameter is the one that decides on it
      m₂.usesSession = m.usesSession ∧
      m₂.sessionOptional =
        (m.sessionOptional &&
          !(p.name == "session" && after.all fun q => q.name != "session")) := by
  obtain ⟨r₂, hregister, hnames⟩ := register_named h hs halias hname hahead
  obtain ⟨rfl, -, -⟩ := register_yields r s _ h
  refine ⟨_, r₂, hregister, fun body hdeep => ⟨fun hplain => ?_, fun hp homissible =>
    ⟨fun object hread => ⟨fun v hget hv => ?_, fun hget => ?_, fun hget => ?_⟩, fun hbody => ?_⟩⟩,
    ?_, ?_⟩
  · exact hnames.accepted_iff hdeep hplain
  · exact hnames.accepted_iff_of_some hdeep hread hget fun _ => hv
  · exact hnames.accepted_iff_of_null hdeep hread hget hp homissible
  · exact hnames.accepted_iff_of_none hread hget hp
  · exact ⟨Codec.not_decode_accepted hnames.named hbody,
      Codec.not_decode_accepted hnames.plain hbody⟩
  · exact Signature.usesSession_retype hs
  · exact Signature.sessionOptional_retype hs

/-- A method that looks for a title, which may be missing, for a caller who may have a session. -/
def finding : Signature :=
  { name := "find"
    params := [
      { name := "t", ty := .optional .string },
      { name := "session", ty := .union [.string, .null] }]
    returns := .any }

theorem nothingAhead_finding : NothingAhead {} finding := by
  refine fun id _ => ⟨?_, fun other body hget => ?_⟩
  · exact List.forall_mem_singleton.mpr List.not_mem_nil
  · cases hget

/-- The same with a name for the type of its parameters. -/
def findingNamed : Signature :=
  { finding with params := [
      { name := "t", ty := .reference 0 },
      { name := "session", ty := .union [.string, .null] }] }

/-- The table with that name. -/
def titles : TypeTable :=
  { slots := [.defined (.alias { name := "Title", ty := .optional .string })] }

/-- An object with the member `t`, which is `"a"`. -/
def titleBody : List UInt8 := [0x7b, 0x22, 0x74, 0x22, 0x3a, 0x22, 0x61, 0x22, 0x7d]

theorem naming_keeps_acceptance_finding :
    ∃ m r m₂ r₂, Registry.register {} finding = .ok (m, r) ∧
      Registry.register { types := titles } findingNamed = .ok (m₂, r₂) ∧
      (Accepted (m₂.decode r₂.types titleBody) ↔ Accepted (m.decode r.types titleBody)) ∧
      m₂.sessionOptional = m.sessionOptional := by
  have hregistered : Registry.register {} finding = .ok (finding.method 0, _) := rfl
  have hparams : finding.params = [] ++ { name := "t", ty := .optional .string } :: _ := rfl
  have hinsert : TypeTable.insert {} (.alias { name := "Title", ty := .optional .string }) =
    .ok (0, titles) := rfl
  obtain ⟨m₂, r₂, hregister, hbodies, -, hsession⟩ :=
    naming_keeps_acceptance hregistered hparams hinsert (by decide) nothingAhead_finding
  have hnamed : Registry.register { types := titles } findingNamed =
    .ok (findingNamed.method 1, _) := rfl
  obtain ⟨rfl, rfl⟩ := Prod.mk.inj (Except.ok.inj (hregister.symm.trans hnamed))
  have hread : Json.read titleBody = .ok (.object [("t", .string "a")]) := rfl
  refine ⟨_, _, _, _, rfl, hregister, ?_, hsession⟩
  refine (((hbodies titleBody ?_).2 rfl rfl).1 _ hread).1 (.string "a") rfl rfl
  rintro ⟨path, hdeep⟩
  cases hdeep

/-- A method that takes a list of what its own parameters will be, if a name comes before them. -/
def growing : Signature :=
  { name := "grow"
    params := [
      { name := "x", ty := .array (.reference 1), default := some (.array []) },
      { name := "y", ty := .any, default := some .null }]
    returns := .any }

/-- An object with the member `x`, which is a list of one object without members. -/
def growingBody : List UInt8 := [0x7b, 0x22, 0x78, 0x22, 0x3a, 0x5b, 0x7b, 0x7d, 0x5d, 0x7d]

/-- **A name hides that a parameter may be missing, and that a session may be**: without members the
    body is accepted for the type itself and refused for a name for it, and so is the caller without
    a session. And where types refer ahead, the name takes a number that leads elsewhere without
    it. -/
theorem names_hide_absence :
    (¬ ∀ (r : Registry) (s : Signature) (m : Method) (r' : Registry) (before : List Param)
        (p : Param) (after : List Param) (name : String) (target : DefId) (types : TypeTable)
        (m₂ : Method) (r₂ : Registry) (body : List UInt8),
      r.register s = .ok (m, r') → s.params = before ++ p :: after →
      r.types.insert (.alias { name, ty := p.ty }) = .ok (target, types) →
      name ≠ parametersTypeName s.name → r.NothingAhead s →
      Registry.register { r with types }
        { s with params := before ++ { p with ty := .reference target } :: after } =
          .ok (m₂, r₂) →
      ¬ EndsTooDeep (m.decode r'.types body) → ¬ EndsTooDeep (m₂.decode r₂.types body) →
      (Accepted (m₂.decode r₂.types body) ↔ Accepted (m.decode r'.types body))) ∧
    (¬ ∀ (r : Registry) (s : Signature) (m : Method) (r' : Registry) (before : List Param)
        (p : Param) (after : List Param) (name : String) (target : DefId) (types : TypeTable)
        (m₂ : Method) (r₂ : Registry),
      r.register s = .ok (m, r') → s.params = before ++ p :: after →
      r.types.insert (.alias { name, ty := p.ty }) = .ok (target, types) →
      name ≠ parametersTypeName s.name → r.NothingAhead s →
      Registry.register { r with types }
        { s with params := before ++ { p with ty := .reference target } :: after } =
          .ok (m₂, r₂) →
      p.name = "session" → m₂.sessionOptional = m.sessionOptional) ∧
    ¬ ∀ (r : Registry) (s : Signature) (m : Method) (r' : Registry) (before : List Param)
        (p : Param) (after : List Param) (name : String) (target : DefId) (types : TypeTable)
        (m₂ : Method) (r₂ : Registry) (body : List UInt8),
      r.register s = .ok (m, r') → s.params = before ++ p :: after →
      r.types.insert (.alias { name, ty := p.ty }) = .ok (target, types) →
      name ≠ parametersTypeName s.name → p.ty.isOmissible = false →
      Registry.register { r with types }
        { s with params := before ++ { p with ty := .reference target } :: after } =
          .ok (m₂, r₂) →
      ¬ EndsTooDeep (m.decode r'.types body) → ¬ EndsTooDeep (m₂.decode r₂.types body) →
      (Accepted (m₂.decode r₂.types body) ↔ Accepted (m.decode r'.types body)) := by
  refine ⟨fun h => ?_, fun h => ?_, fun h => ?_⟩
  · have hiff := h {} finding _ _ [] _ _ "Title" _ _ _ _ [0x7b, 0x7d] rfl rfl rfl (by decide)
      nothingAhead_finding rfl nofun nofun
    have hplain : Accepted ((finding.method 0).decode
      { slots := [.defined (.struct finding.parameters)] } [0x7b, 0x7d]) := ⟨[], rfl⟩
    have hnamed : (findingNamed.method 1).decode
      { slots := titles.slots ++ [.defined (.struct findingNamed.parameters)] } [0x7b, 0x7d] =
        .error (.missing [] "t") := rfl
    obtain ⟨args, hargs⟩ := hiff.mpr hplain
    cases hnamed.symm.trans hargs
  · have hsame := h {} finding _ _ [⟨"t", .optional .string, none⟩] _ _ "User" _ _ _ _ rfl rfl rfl
      (by decide) nothingAhead_finding rfl rfl
    cases hsame
  · have hiff := h {} growing _ _ [⟨"x", .array (.reference 1), some (.array [])⟩] _ _ "Y" _ _ _ _
      growingBody rfl rfl rfl (by decide) rfl rfl nofun nofun
    have hplain : (growing.method 0).decode
      { slots := [.defined (.struct growing.parameters)] } growingBody =
        .error (.schema (.unknownDefinition 1)) := rfl
    obtain ⟨args, hargs⟩ := hiff.mp ⟨_, rfl⟩
    cases hplain.symm.trans hargs

end Registry

end WireContract
