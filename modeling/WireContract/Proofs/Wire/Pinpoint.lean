import WireContract.Proofs.Wire.Cutoff
import WireContract.Proofs.Wire.Places

/-!
# Faults point at a part of the value

The place that a fault names is a way through the value that was checked: every step of it is a
member or an item that is there. A missing field is reported at the object that lacks it, and the
object is one that the check has opened a struct with such a field for. In a union the faults of the
members are dropped as long as they only say that the value does not fit, so that the union answers
for itself; a fault that ends every attempt is passed on as it is, and it may lie deeper.

* `Leads`: the steps from a value to one of its parts;
* `Opens`, `Comes`: from which value and type the check goes to which others, and by which steps;
* `FailsWith`: what holds of the fault of an outcome, and one rule for every part of the check;
* `Pinpoints`, `check_pinpoints`: what a fault at the root of a value says of the value;
* `faults_point_into_the_value`: the same at every place.
-/

namespace WireContract.Wire

/-- The place that a fault names. -/
def Fault.place? : Fault → Option Path
  | .mismatch path _ => some path
  | .missing path _ => some path
  | .tooDeep path => some path
  | .notJson _ => none
  | .schema _ => none

theorem Fault.place?_under (above : Path) (fault : Fault) :
    (fault.under above).place? = fault.place?.map (above ++ ·) := by
  cases fault <;> rfl

/-- The text of a longer path begins with that of the shorter one. -/
theorem Path.render_append (path steps : Path) :
    Path.render (path ++ steps) = path.render ++ String.join (steps.map Step.render) := by
  have hfold : ∀ text : String, steps.foldl (fun text step => text ++ step.render) text =
      text ++ String.join (steps.map Step.render) := by
    induction steps with
    | nil => simp
    | cons step rest ih =>
      intro text
      rw [List.foldl_cons, ih, List.map_cons, String.join_cons, String.append_assoc]
  rw [Path.render, List.foldl_append, hfold]
  rfl

/-! ## 1. Ways through a value -/

/-- The steps that lead from a value to one of its parts, itself included. -/
inductive Leads : Json → Path → Json → Prop where
  | here (v : Json) : Leads v [] v
  | member {members : Entries Json} {name : String} {v part : Json} {steps : Path}
      (h : (name, v) ∈ members) (hrest : Leads v steps part) :
      Leads (.object members) (.member name :: steps) part
  | item {items : List Json} {index : Nat} {v part : Json} {steps : Path}
      (h : items[index]? = some v) (hrest : Leads v steps part) :
      Leads (.array items) (.item index :: steps) part

namespace Leads

variable {v w part : Json} {front steps : Path}

theorem trans (h : Leads v front w) (hrest : Leads w steps part) :
    Leads v (front ++ steps) part := by
  induction h with
  | here v => exact hrest
  | member h _ ih => exact .member h (ih hrest)
  | item h _ ih => exact .item h (ih hrest)

/-- A scalar has no part but itself. -/
theorem of_scalar (hv : v.IsScalar) (h : Leads v steps part) : steps = [] ∧ part = v := by
  cases h with
  | here v => exact ⟨rfl, rfl⟩
  | member h _ => exact absurd hv id
  | item h _ => exact absurd hv id

end Leads

/-- Where the check goes next from a value and a type: by which steps, to which part of the value,
    and with which type for it. A union goes nowhere, as it answers for its members. -/
inductive Opens (types : TypeTable) : Ty → Json → Path → Ty → Json → Prop where
  | optional (inner : Ty) (v : Json) (h : v.isNull = false) :
      Opens types (.optional inner) v [] inner v
  | array (elem : Ty) (variadic : Bool) (items : List Json) (index : Nat) (v : Json)
      (h : items[index]? = some v) :
      Opens types (.container .array [elem] variadic) (.array items) [.item index] elem v
  | variadic (elem : Ty) (items : List Json) (index : Nat) (v : Json)
      (h : items[index]? = some v) :
      Opens types (.container .tuple [elem] true) (.array items) [.item index] elem v
  | tuple (elems : List Ty) (items : List Json) (index : Nat) (elem : Ty) (v : Json)
      (hl : items.length = elems.length) (he : elems[index]? = some elem)
      (h : items[index]? = some v) :
      Opens types (.container .tuple elems false) (.array items) [.item index] elem v
  | record (key value : Ty) (members : Entries Json) (name : String) (v : Json)
      (h : (name, v) ∈ members) :
      Opens types (.container .record [key, value] false) (.object members) [.member name] value v
  | field (target : DefId) (args : List Ty) (s : StructDef) (members : Entries Json) (f : Field)
      (v : Json) (hs : types.get target = .ok (.struct s))
      (hl : s.generics.length = args.length) (hf : f ∈ s.fields)
      (h : members.get? f.name = some v) :
      Opens types (.named target args) (.object members) [.member f.name]
        (f.shape.1.substitute (Ty.bind s.generics args)) v
  | body (target : DefId) (args : List Ty) (a : AliasDef) (v : Json)
      (ha : types.get target = .ok (.alias a)) (hl : a.generics.length = args.length) :
      Opens types (.named target args) v [] (a.ty.substitute (Ty.bind a.generics args)) v

/-- Where the check comes to from a value and a type. -/
inductive Comes (types : TypeTable) : Ty → Json → Path → Ty → Json → Prop where
  | refl (ty : Ty) (v : Json) : Comes types ty v [] ty v
  | step {ty inner final : Ty} {v w part : Json} {front steps : Path}
      (h : Opens types ty v front inner w) (hrest : Comes types inner w steps final part) :
      Comes types ty v (front ++ steps) final part

section Ways

variable {types : TypeTable} {ty inner : Ty} {v w : Json} {steps : Path}

/-- The check only goes where there is something. -/
theorem Opens.leads (h : Opens types ty v steps inner w) : Leads v steps w := by
  cases h with
  | optional => exact .here _
  | array _ _ _ _ _ h => exact .item h (.here _)
  | variadic _ _ _ _ h => exact .item h (.here _)
  | tuple _ _ _ _ _ _ _ h => exact .item h (.here _)
  | record _ _ _ _ _ h => exact .member h (.here _)
  | field _ _ _ _ _ _ _ _ _ h => exact .member (Entries.mem_of_get? h) (.here _)
  | body => exact .here _

theorem Comes.leads (h : Comes types ty v steps inner w) : Leads v steps w := by
  induction h with
  | refl ty v => exact .here v
  | step h _ ih => exact h.leads.trans ih

end Ways

/-- At a place the check asks a part for a member: it comes there with a reference to a struct that
    has a required field of the name, without a default. -/
inductive Demands (types : TypeTable) (ty : Ty) (v : Json) : Path → Json → String → Prop where
  | intro {place : Path} {part : Json} {target : DefId} {args : List Ty} {s : StructDef} {f : Field}
      (hcomes : Comes types ty v place (.named target args) part)
      (hs : types.get target = .ok (.struct s)) (hl : s.generics.length = args.length)
      (hf : f ∈ s.fields) (hrequired : f.isRequired = true) (hdefault : f.default = none) :
      Demands types ty v place part f.name

/-- What is asked of a part is asked of it on the way from the whole. -/
theorem Demands.step {types : TypeTable} {ty inner : Ty} {v w part : Json} {front place : Path}
    {name : String} (hopens : Opens types ty v front inner w)
    (h : Demands types inner w place part name) :
    Demands types ty v (front ++ place) part name := by
  cases h with
  | intro hcomes hs hl hf hrequired hdefault =>
    exact .intro (.step hopens hcomes) hs hl hf hrequired hdefault

theorem Demands.leads {types : TypeTable} {ty : Ty} {v part : Json} {place : Path} {name : String}
    (h : Demands types ty v place part name) : Leads v place part := by
  cases h with
  | intro hcomes => exact hcomes.leads

/-! ## 2. The fault of an outcome -/

/-- If the outcome is a fault, it has the property. -/
def FailsWith {α : Type} (outcome : Except Fault α) (p : Fault → Prop) : Prop :=
  ∀ fault, outcome = .error fault → p fault

namespace FailsWith

variable {α β : Type} {outcome : Except Fault α} {p : Fault → Prop}

theorem ok (a : α) : FailsWith (.ok a : Except Fault α) p := fun _ h => nomatch h

theorem error {fault : Fault} (h : p fault) : FailsWith (.error fault : Except Fault α) p := by
  rintro other ⟨⟩
  exact h

theorem bind {f : α → Except Fault β} (h : FailsWith outcome p) (hf : ∀ a, FailsWith (f a) p) :
    FailsWith (outcome >>= f) p := by
  cases outcome with
  | ok a => exact hf a
  | error fault => exact .error (h fault rfl)

/-- What follows on the count of arguments is done only if the count is right. -/
theorem behindArity {name : String} {generics : List String} {args : List Ty}
    (hreason : ∀ reason, p (.schema reason))
    (h : generics.length = args.length → FailsWith outcome p) :
    FailsWith (checkArity name generics args >>= fun _ => outcome) p := by
  unfold checkArity
  split
  · rename_i hl
    exact h hl
  · exact .error (hreason _)

theorem map (f : α → β) (h : FailsWith outcome p) : FailsWith (outcome.map f) p := by
  cases outcome with
  | ok a => exact .ok (f a)
  | error fault => exact .error (h fault rfl)

end FailsWith

/-- What holds of the fault at the root holds of the one at a place, which has the place in
    front. -/
theorem PlacesFaults.failsWith {checker : Checker} (hplaces : PlacesFaults checker) {ty : Ty}
    {v : Json} {front : Path} {p q : Fault → Prop} (h : FailsWith (checker ty v []) p)
    (hpq : ∀ root, p root → q (root.under front)) : FailsWith (checker ty v front) q := by
  rw [← List.append_nil front, hplaces ty v front []]
  cases hout : checker ty v [] with
  | ok out => exact .ok out
  | error root => exact .error (hpq root (h root hout))

section Parts

variable {checker : Checker} {p : Fault → Prop}

theorem accept_failsWith (ok : Bool) (v : Json) {path : Path} {expected : Expected}
    (h : p (.mismatch path expected)) : FailsWith (accept ok v path expected) p := by
  unfold accept
  split
  · exact .ok v
  · exact .error h

/-- A union fails by itself behind its last member, or with what a member ends every attempt
    with. -/
theorem checkUnion_error {members : List Ty} {v : Json} {path : Path} {fault : Fault}
    (h : checkUnion checker members v path = .error fault) :
    (fault = .mismatch path .unionMember ∧ ∀ member ∈ members, ∃ other,
        checker member v path = .error other ∧ other.isMismatch = true) ∨
      (fault.isMismatch = false ∧ ∃ member ∈ members, checker member v path = .error fault) := by
  induction members with
  | nil => exact .inl ⟨(Except.error.inj h).symm, fun member hm => absurd hm List.not_mem_nil⟩
  | cons ty rest ih =>
    rw [checkUnion_cons] at h
    cases hty : checker ty v path with
    | ok out =>
      rw [hty] at h
      cases h
    | error other =>
      rw [hty] at h
      by_cases hm : other.isMismatch = true
      · rw [orNext_of_isMismatch hm] at h
        obtain ⟨rfl, hrest⟩ | ⟨hends, member, hmember, hfault⟩ := ih h
        · exact .inl ⟨rfl, List.forall_mem_cons.mpr ⟨⟨other, hty, hm⟩, hrest⟩⟩
        · exact .inr ⟨hends, member, List.mem_cons_of_mem _ hmember, hfault⟩
      · rw [orNext_of_not_isMismatch hm] at h
        obtain rfl := Except.error.inj h
        exact .inr ⟨Bool.eq_false_iff.mpr hm, ty, List.mem_cons_self, hty⟩

theorem checkItems_failsWith {elem : Ty} {path : Path} {index : Nat} {items : List Json}
    (h : ∀ n v, items[n]? = some v → FailsWith (checker elem v (path ++ [.item (index + n)])) p) :
    FailsWith (checkItems checker elem path index items) p := by
  induction items generalizing index with
  | nil => exact .ok []
  | cons v rest ih =>
    unfold checkItems
    have hrest : ∀ n w, rest[n]? = some w →
        FailsWith (checker elem w (path ++ [.item (index + 1 + n)])) p := by
      intro n w hw
      rw [Nat.add_right_comm]
      exact h (n + 1) w hw
    exact (h 0 v rfl).bind fun out => (ih hrest).bind fun outs => .ok (out :: outs)

theorem checkPlaces_failsWith {path : Path} {index : Nat} {elems : List Ty} {items : List Json}
    (h : ∀ n ty v, elems[n]? = some ty → items[n]? = some v →
      FailsWith (checker ty v (path ++ [.item (index + n)])) p) :
    FailsWith (checkPlaces checker path index elems items) p := by
  induction elems generalizing index items with
  | nil => exact .ok []
  | cons ty rest ih =>
    cases items with
    | nil => exact .ok []
    | cons v vs =>
      unfold checkPlaces
      have hrest : ∀ n inner w, rest[n]? = some inner → vs[n]? = some w →
          FailsWith (checker inner w (path ++ [.item (index + 1 + n)])) p := by
        intro n inner w hinner hw
        rw [Nat.add_right_comm]
        exact h (n + 1) inner w hinner hw
      exact (h 0 ty v rfl rfl).bind fun out => (ih hrest).bind fun outs => .ok (out :: outs)

/-- A key is checked as a scalar, the text itself or a number. -/
theorem checkKey_failsWith {ty : Ty} {path : Path} (hkey : p (.mismatch path .numericKey))
    (h : ∀ v : Json, v.IsScalar → FailsWith (checker ty v path) p) (key : String) :
    FailsWith (checkKey checker ty key path) p := by
  by_cases hty : ty = .number
  · subst hty
    rw [checkKey_number]
    split
    · exact (h (.number _) trivial).map _
    · exact .error hkey
  · rw [checkKey_of_ne hty]
    exact (h (.string key) trivial).map _

theorem checkEntries_failsWith {keyTy valueTy : Ty} {path : Path} {members : Entries Json}
    (hkey : ∀ key v, (key, v) ∈ members →
      FailsWith (checkKey checker keyTy key (path ++ [.member key])) p)
    (hvalue : ∀ key v, (key, v) ∈ members →
      FailsWith (checker valueTy v (path ++ [.member key])) p) (done : Entries Json) :
    FailsWith (checkEntries checker keyTy valueTy path members done) p := by
  induction members generalizing done with
  | nil => exact .ok done
  | cons e rest ih =>
    obtain ⟨key, v⟩ := e
    unfold checkEntries
    have hrest := ih (fun key v hv => hkey key v (List.mem_cons_of_mem _ hv))
      (fun key v hv => hvalue key v (List.mem_cons_of_mem _ hv))
    exact (hkey key v List.mem_cons_self).bind fun _ =>
      (hvalue key v List.mem_cons_self).bind fun out => hrest (done.put key out)

/-- A struct's members fail one by one, or because one of them is not there. -/
theorem checkMembers_failsWith {bindings : Ty.Bindings} {object : Entries Json} {path : Path}
    {fields : List Field}
    (hthere : ∀ f ∈ fields, ∀ v, object.get? f.name = some v →
      FailsWith (checker (f.shape.1.substitute bindings) v (path ++ [.member f.name])) p)
    (hmissing : ∀ f ∈ fields, object.get? f.name = none → f.default = none →
      f.isRequired = true → p (.missing path f.name)) (done : Entries Json) :
    FailsWith (checkMembers checker bindings object path fields done) p := by
  induction fields generalizing done with
  | nil => exact .ok done
  | cons f rest ih =>
    rw [List.forall_mem_cons] at hthere hmissing
    have hrest := ih hthere.2 hmissing.2
    unfold checkMembers
    split
    · rename_i v hv
      exact (hthere.1 v hv).bind fun out => hrest (done.put f.name out)
    · rename_i hnone
      split
      · exact hrest _
      · rename_i hdefault
        split
        · rename_i hrequired
          exact .error (hmissing.1 hnone hdefault hrequired)
        · exact hrest done

end Parts

/-! ## 3. What a fault at the root says -/

/-- A fault of a value that is checked at the root: the place that it names is that of a part, and
    where a field is missing, the part is an object that lacks it although it is asked for it. -/
structure Pinpoints (types : TypeTable) (ty : Ty) (v : Json) (fault : Fault) : Prop where
  leads : ∀ place, fault.place? = some place → ∃ part, Leads v place part
  lacks : ∀ place name, fault = .missing place name → ∃ members : Entries Json,
    members.get? name = none ∧ Demands types ty v place (.object members) name

namespace Pinpoints

variable {types : TypeTable} {ty inner : Ty} {v w : Json} {front : Path} {fault : Fault}

theorem mismatch (expected : Expected) : Pinpoints types ty v (.mismatch [] expected) where
  leads := by
    rintro place ⟨⟩
    exact ⟨v, .here v⟩
  lacks := nofun

theorem tooDeep : Pinpoints types ty v (.tooDeep []) where
  leads := by
    rintro place ⟨⟩
    exact ⟨v, .here v⟩
  lacks := nofun

/-- A field is missed at the object that is asked for it. -/
theorem missing {members : Entries Json} {name : String} (hnone : members.get? name = none)
    (hdemands : Demands types ty (.object members) [] (.object members) name) :
    Pinpoints types ty (.object members) (.missing [] name) where
  leads := by
    rintro place ⟨⟩
    exact ⟨.object members, .here _⟩
  lacks := by
    rintro place name ⟨⟩
    exact ⟨members, hnone, hdemands⟩

theorem schema (reason : SchemaFault) : Pinpoints types ty v (.schema reason) where
  leads := nofun
  lacks := nofun

/-- What is said of a part holds of the whole, with the way to the part in front. -/
theorem opens (hopens : Opens types ty v front inner w) (h : Pinpoints types inner w fault) :
    Pinpoints types ty v (fault.under front) where
  leads place hplace := by
    rw [Fault.place?_under, Option.map_eq_some_iff] at hplace
    obtain ⟨rest, hrest, rfl⟩ := hplace
    obtain ⟨part, hpart⟩ := h.leads rest hrest
    exact ⟨part, hopens.leads.trans hpart⟩
  lacks place name hmissing := by
    cases fault with
    | missing rest field =>
      obtain ⟨rfl, rfl⟩ : front ++ rest = place ∧ field = name := by
        simpa [Fault.under] using hmissing
      obtain ⟨members, hnone, hdemands⟩ := h.lacks rest field rfl
      exact ⟨members, hnone, hdemands.step hopens⟩
    | _ => exact nomatch hmissing

/-- A scalar is at fault itself, so that the fault of a key is one of the member that has it. -/
theorem scalar (hw : w.IsScalar) (hleads : ∃ part, Leads v front part)
    (h : Pinpoints types inner w fault) : Pinpoints types ty v (fault.under front) where
  leads place hplace := by
    rw [Fault.place?_under, Option.map_eq_some_iff] at hplace
    obtain ⟨rest, hrest, rfl⟩ := hplace
    obtain ⟨part, hpart⟩ := h.leads rest hrest
    rw [(hpart.of_scalar hw).1, List.append_nil]
    exact hleads
  lacks place name hmissing := by
    cases fault with
    | missing rest field =>
      obtain ⟨members, _, hdemands⟩ := h.lacks rest field rfl
      obtain rfl := (hdemands.leads.of_scalar hw).2
      exact absurd hw id
    | _ => exact nomatch hmissing

end Pinpoints

section Levels

variable {types : TypeTable} {checker : Checker} (hplaces : PlacesFaults checker)
  (hc : ∀ ty v, FailsWith (checker ty v []) (Pinpoints types ty v))

include hplaces hc

theorem opens_failsWith {ty inner : Ty} {v w : Json} {front : Path}
    (hopens : Opens types ty v front inner w) :
    FailsWith (checker inner w front) (Pinpoints types ty v) :=
  hplaces.failsWith (hc inner w) fun _ hroot => hroot.opens hopens

theorem key_failsWith {ty keyTy : Ty} {v part : Json} {front : Path} (hleads : Leads v front part)
    (key : String) : FailsWith (checkKey checker keyTy key front) (Pinpoints types ty v) := by
  have hnumeric : Pinpoints types ty v (.mismatch front .numericKey) :=
    ⟨fun place hplace => Option.some.inj hplace ▸ ⟨part, hleads⟩, nofun⟩
  refine checkKey_failsWith hnumeric (fun w hw => ?_) key
  exact hplaces.failsWith (hc keyTy w) fun _ hroot => hroot.scalar hw ⟨part, hleads⟩

theorem checkContainer_items_failsWith {ty elem : Ty}
    (hopens : ∀ items index v, items[index]? = some v →
      Opens types ty (.array items) [.item index] elem v) (v : Json) :
    FailsWith (checkContainer.items checker v [] elem) (Pinpoints types ty v) := by
  unfold checkContainer.items
  cases v with
  | array items =>
    refine (checkItems_failsWith fun n w hw => ?_).map _
    rw [Nat.zero_add]
    exact opens_failsWith hplaces hc (hopens items n w hw)
  | _ => exact .error (.mismatch .array)

theorem checkContainer_failsWith (kind : ContainerKind) (elems : List Ty) (variadic : Bool)
    (v : Json) :
    FailsWith (checkContainer checker kind elems variadic v [])
      (Pinpoints types (.container kind elems variadic) v) := by
  by_cases hfits : kind.Admits elems.length variadic
  · cases hfits.form with
    | array elem => exact checkContainer_items_failsWith hplaces hc (.array elem variadic) v
    | variadic elem => exact checkContainer_items_failsWith hplaces hc (.variadic elem) v
    | tuple =>
      rw [checkContainer_tuple]
      cases v with
      | array items =>
        change FailsWith (if items.length ≠ elems.length then _ else _) _
        split
        · exact .error (.mismatch _)
        · rename_i hl
          refine (checkPlaces_failsWith fun n ty w hty hw => ?_).map _
          rw [Nat.zero_add]
          exact opens_failsWith hplaces hc (.tuple elems items n ty w (not_not.mp hl) hty hw)
      | _ => exact .error (.mismatch .array)
    | record keyTy valueTy =>
      rw [checkContainer_record]
      cases v with
      | object members =>
        refine (checkEntries_failsWith (fun key w hw => ?_) (fun key w hw => ?_) []).map _
        · exact key_failsWith hplaces hc (.member hw (.here w)) key
        · exact opens_failsWith hplaces hc (.record keyTy valueTy members key w hw)
      | _ => exact .error (.mismatch .object)
  · rw [checkContainer_of_not_admits hfits]
    exact .error (.schema _)

theorem checkFields_failsWith {target : DefId} {args : List Ty} {s : StructDef}
    (hs : types.get target = .ok (.struct s)) (v : Json) :
    FailsWith (checkFields checker s args v []) (Pinpoints types (.named target args) v) := by
  unfold checkFields
  refine .behindArity .schema fun hl => ?_
  cases v with
  | object members =>
    refine checkMembers_failsWith (fun f hf w hw => ?_)
      (fun f hf hnone hdefault hrequired => ?_) []
    · exact opens_failsWith hplaces hc (.field target args s members f w hs hl hf hw)
    · exact .missing hnone (.intro (.refl _ _) hs hl hf hrequired hdefault)
  | _ => exact .error (.mismatch _)

theorem checkDefinition_failsWith {target : DefId} {args : List Ty} {body : Definition}
    (hbody : types.get target = .ok body) (v : Json) :
    FailsWith (checkDefinition checker body args v [])
      (Pinpoints types (.named target args) v) := by
  cases body with
  | struct s => exact (checkFields_failsWith hplaces hc hbody v).map _
  | enumeration e => exact accept_failsWith _ v (.mismatch _)
  | «alias» a =>
    exact .behindArity .schema fun hl => opens_failsWith hplaces hc (.body target args a v hbody hl)

/-- **One level of the check** says of a part what the comparison for what is inside says of it. -/
theorem checkStep_failsWith (ty : Ty) (v : Json) :
    FailsWith (checkStep types checker ty v []) (Pinpoints types ty v) := by
  cases ty with
  | primitive kind => cases kind <;> exact accept_failsWith _ v (.mismatch _)
  | any => exact .ok v
  | generic name => exact .ok v
  | absent => exact accept_failsWith _ v (.mismatch _)
  | optional inner =>
    change FailsWith (if v.isNull then .ok .null else checker inner v []) _
    split
    · exact .ok Json.null
    · rename_i hnull
      exact opens_failsWith hplaces hc (.optional inner v (Bool.eq_false_iff.mpr hnull))
  | literals values => exact accept_failsWith _ v (.mismatch _)
  | union members =>
    -- the fault of a member that gets through names no missing field, so no type has to be told
    intro fault hfault
    obtain ⟨rfl, _⟩ | ⟨hends, member, _, hmember⟩ := checkUnion_error hfault
    · exact .mismatch _
    · refine ⟨(hc member v fault hmember).leads, ?_⟩
      rintro place name rfl
      cases hends
  | container kind elems variadic => exact checkContainer_failsWith hplaces hc kind elems variadic v
  | named target args =>
    cases hget : types.get target with
    | error fault =>
      simp only [checkStep, hget]
      exact .error (.schema fault)
    | ok body =>
      simp only [checkStep, hget]
      exact checkDefinition_failsWith hplaces hc hget v

end Levels

/-- **A fault at the root points at a part of the value.** The induction is on the levels. -/
theorem check_pinpoints (types : TypeTable) (left : Nat) (ty : Ty) (v : Json) :
    FailsWith (check types left ty v []) (Pinpoints types ty v) := by
  induction left generalizing ty v with
  | zero => exact .error .tooDeep
  | succ left ih =>
    rw [check_succ]
    exact checkStep_failsWith (check_under types left) ih ty v

/-! ## 4. At every place -/

/-- A fault is one at the root, with the place where the check is started in front. -/
theorem check_error_at_root {types : TypeTable} {left : Nat} {ty : Ty} {v : Json} {path : Path}
    {fault : Fault} (h : check types left ty v path = .error fault) :
    ∃ root, check types left ty v [] = .error root ∧ fault = root.under path := by
  have hroot : FailsWith (check types left ty v []) fun root =>
      check types left ty v [] = .error root := fun _ => id
  have hplace : FailsWith (check types left ty v path) fun fault =>
      ∃ root, check types left ty v [] = .error root ∧ fault = root.under path :=
    (check_under types left).failsWith hroot fun root h => ⟨root, h, rfl⟩
  exact hplace fault h

/-- **A fault points at a part of the value.** Whatever the check is started with: the place of its
    fault is the one it is started at with steps behind it that lead from the value to one of its
    parts, in the text as well; where a field is missing, the part is an object without a member of
    the name, and the check has come to it with a reference to a struct that requires the field and
    has no default for it. A union that no member takes the value of reports its own place, whatever
    its members report; only what ends every attempt is passed on from a member as it is. -/
theorem faults_point_into_the_value {types : TypeTable} {level : Nat} {ty : Ty} {v : Json}
    {path : Path} {fault : Fault} (h : checkFrom types level ty v path = .error fault) :
    (∀ place, fault.place? = some place → ∃ steps part, Leads v steps part ∧
        place = path ++ steps ∧
        place.render = path.render ++ String.join (steps.map Step.render)) ∧
      (∀ place name, fault = .missing place name → ∃ (steps : Path) (members : Entries Json),
        place = path ++ steps ∧ Leads v steps (.object members) ∧ members.get? name = none ∧
        Demands types ty v steps (.object members) name) ∧
      ∀ members, ty = .union members →
        (fault = .mismatch path .unionMember ∧ ∀ member ∈ members, ∃ other,
            checkFrom types (level + 1) member v path = .error other ∧ other.isMismatch = true) ∨
          (fault = .tooDeep path ∧ depthLimit ≤ level) ∨
          (fault.isMismatch = false ∧ ∃ member ∈ members,
            checkFrom types (level + 1) member v path = .error fault) := by
  obtain ⟨root, hroot, rfl⟩ := check_error_at_root h
  have hpoints : Pinpoints types ty v root := check_pinpoints types _ ty v root hroot
  refine ⟨fun place hplace => ?_, fun place name hmissing => ?_, ?_⟩
  · rw [Fault.place?_under, Option.map_eq_some_iff] at hplace
    obtain ⟨steps, hsteps, rfl⟩ := hplace
    obtain ⟨part, hpart⟩ := hpoints.leads steps hsteps
    exact ⟨steps, part, hpart, rfl, path.render_append steps⟩
  · cases root with
    | missing steps field =>
      obtain ⟨rfl, rfl⟩ : path ++ steps = place ∧ field = name := by
        simpa [Fault.under] using hmissing
      obtain ⟨members, hnone, hdemands⟩ := hpoints.lacks steps field rfl
      exact ⟨steps, members, rfl, hdemands.leads, hnone, hdemands⟩
    | _ => exact nomatch hmissing
  · rintro members rfl
    by_cases hlevel : level < depthLimit
    · rw [checkFrom_union hlevel] at h
      obtain hself | hmember := checkUnion_error h
      · exact .inl hself
      · exact .inr (.inr hmember)
    · rw [checkFrom, Nat.sub_eq_zero_of_le (Nat.le_of_not_lt hlevel)] at h
      exact .inr (.inl ⟨(Except.error.inj h).symm, Nat.le_of_not_lt hlevel⟩)

/-- Points with two coordinates. -/
def points : TypeTable where
  slots := [.defined (.struct { name := "Point", fields := [{ name := "x", ty := .number },
    { name := "y", ty := .number }] })]

/-- The second of two points lacks a coordinate. -/
def twoPoints : Json :=
  .array [.object [("x", .number (.integer 1)), ("y", .number (.integer 2))],
    .object [("y", .number (.integer 2))]]

theorem faults_point_into_the_value_two_points :
    checkFrom points 0 (.array (.named 0 [])) twoPoints [] = .error (.missing [.item 1] "x") ∧
      ∃ (steps : Path) (members : Entries Json), [.item 1] = [] ++ steps ∧
        Leads twoPoints steps (.object members) ∧ members.get? "x" = none ∧
        Demands points (.array (.named 0 [])) twoPoints steps (.object members) "x" := by
  have h : checkFrom points 0 (.array (.named 0 [])) twoPoints [] =
      .error (.missing [.item 1] "x") := rfl
  exact ⟨h, (faults_point_into_the_value h).2.1 _ _ rfl⟩

/-- Arrays of such arrays. -/
def nests : TypeTable where
  slots := [.defined (.alias { name := "Nest", ty := .array (.named 0 []) })]

/-- So many arrays, each in the one before. -/
def nested : Nat → Json
  | 0 => .array []
  | n + 1 => .array [nested n]

/-- With an odd number of levels left, the check of such arrays comes to the last one at an array as
    deep as half of them. -/
theorem check_nested {left n : Nat} (h : left ≤ n) (path : Path) :
    check nests (2 * left + 1) (.named 0 []) (nested n) path =
      .error (.tooDeep (path ++ List.replicate left (.item 0))) := by
  induction left generalizing n path with
  | zero => rw [List.replicate_zero, List.append_nil]; rfl
  | succ left ih =>
    obtain ⟨n, rfl⟩ : ∃ m, n = m + 1 := ⟨n - 1, by omega⟩
    have hitem := ih (Nat.le_of_succ_le_succ h) (path ++ [.item 0])
    have hlevels : 2 * (left + 1) + 1 = 2 * left + 1 + 1 + 1 := by omega
    rw [hlevels, check_named rfl]
    change (checkItems (check nests (2 * left + 1)) (.named 0 []) path 0 [nested n]).map _ = _
    rw [checkItems, hitem, List.append_assoc, List.replicate_succ]
    rfl

/-- **A union need not report its own place**: where the levels come to an end in a member, the
    place is the one there. -/
theorem union_passes_depth_on :
    checkFrom nests 0 (.union [.named 0 []]) (nested 63) [] =
        .error (.tooDeep (List.replicate 63 (.item 0))) ∧
      List.replicate 63 (Step.item 0) ≠ [] := by
  refine ⟨?_, by decide⟩
  have hmember : checkFrom nests 1 (.named 0 []) (nested 63) [] =
      .error (.tooDeep (List.replicate 63 (.item 0))) := check_nested (Nat.le_refl 63) []
  rw [checkFrom_union (by decide), checkUnion_cons, hmember]
  rfl

end WireContract.Wire
