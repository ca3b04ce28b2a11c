import WireContract.Proofs.Bindings.Phrases
import WireContract.Proofs.Wire.InStep
import WireContract.Proofs.Wire.Trimming

/-!
# Types that say the same

Two types with one phrase take the same values and make the same of them, as far as the check comes
to an end with both: it may go down to its last level with one of them, or trip over a type that one
of them leads to. The definitions behind references do not matter, since both types refer to the
same ones, with arguments that say the same.

* `Concurs`: two outcomes that say the same of a value, or one of which says nothing;
* `check_null_yields`: nothing but null is made of null, so that it does not matter whether null is
  taken by a type or by the option to leave the value out;
* `check_concurs`: types with one phrase.
-/

namespace WireContract.Wire

/-! ## 1. Outcomes -/

/-- Whether a fault says nothing of the value: the check was at its last level, or the type is at
    fault. -/
def Fault.IsOpen : Fault → Prop
  | .tooDeep _ => True
  | .schema _ => True
  | _ => False

theorem Fault.IsOpen.not_isMismatch {fault : Fault} (h : fault.IsOpen) :
    ¬ fault.isMismatch = true := by
  cases fault with
  | tooDeep path => exact Bool.false_ne_true
  | schema reason => exact Bool.false_ne_true
  | _ => exact h.elim

/-- Two outcomes that say the same of a value, or one of which says nothing of it. -/
inductive Concurs {α : Type} : Except Fault α → Except Fault α → Prop where
  | ok (a : α) : Concurs (.ok a) (.ok a)
  | refused (fault other : Fault) (h : fault.isMismatch = true) (ho : other.isMismatch = true) :
      Concurs (.error fault) (.error other)
  | openLeft (fault : Fault) (y : Except Fault α) (h : fault.IsOpen) : Concurs (.error fault) y
  | openRight (x : Except Fault α) (fault : Fault) (h : fault.IsOpen) : Concurs x (.error fault)

theorem orNext_of_isOpen {fault : Fault} (h : fault.IsOpen) (next : Except Fault Json) :
    orNext (.error fault) next = .error fault := orNext_of_not_isMismatch h.not_isMismatch next

namespace Concurs

variable {α β : Type}

theorem symm {x y : Except Fault α} (h : Concurs x y) : Concurs y x := by
  cases h with
  | ok a => exact .ok a
  | refused fault other h ho => exact .refused other fault ho h
  | openLeft fault y h => exact .openRight y fault h
  | openRight x fault h => exact .openLeft fault x h

theorem bind {x y : Except Fault α} {f g : α → Except Fault β} (h : Concurs x y)
    (hf : ∀ a, Concurs (f a) (g a)) : Concurs (x >>= f) (y >>= g) := by
  cases h with
  | ok a => exact hf a
  | refused fault other h ho => exact .refused fault other h ho
  | openLeft fault y h => exact .openLeft fault _ h
  | openRight x fault h => exact .openRight _ fault h

theorem next {x y x' y' : Except Fault Json} (h : Concurs x y) (h' : Concurs x' y') :
    Concurs (orNext x x') (orNext y y') := by
  cases h with
  | ok out => exact .ok out
  | refused fault other h ho =>
    rw [orNext_of_isMismatch h, orNext_of_isMismatch ho]
    exact h'
  | openLeft fault y h =>
    rw [orNext_of_isOpen h]
    exact .openLeft fault _ h
  | openRight x fault h =>
    rw [orNext_of_isOpen h]
    exact .openRight _ fault h

/-- One more refusal behind the second outcome changes nothing. -/
theorem orNext_refused {x y : Except Fault Json} (h : Concurs x y) {fault : Fault}
    (hf : fault.isMismatch = true) : Concurs x (orNext y (.error fault)) := by
  cases h with
  | ok out => exact .ok out
  | refused first other h ho =>
    rw [orNext_of_isMismatch ho]
    exact .refused first fault h hf
  | openLeft first y h => exact .openLeft first _ h
  | openRight x other h =>
    rw [orNext_of_isOpen h]
    exact .openRight x other h

/-- Null that is taken by one type, or else by the next, is null. -/
theorem orNext_null {x : Except Fault Json} (h : Concurs x x) (hnull : Yields x (· = .null)) :
    Concurs (.ok .null) (orNext x (.ok .null)) := by
  have hfault : ∀ fault, x = .error fault → fault.isMismatch = true ∨ fault.IsOpen := by
    rintro fault rfl
    cases h with
    | refused _ _ h _ => exact .inl h
    | openLeft _ _ h => exact .inr h
    | openRight _ _ h => exact .inr h
  cases x with
  | ok out =>
    obtain rfl : out = Json.null := hnull out rfl
    exact .ok Json.null
  | error fault =>
    rcases hfault fault rfl with hm | ho
    · rw [orNext_of_isMismatch hm]
      exact .ok Json.null
    · rw [orNext_of_isOpen ho]
      exact .openRight _ fault ho

end Concurs

/-- The check keeps that outcomes concur, whatever faults of types there are. -/
theorem kept_concurs : Kept (fun _ => True) fun _ => Concurs where
  ok := .ok
  refused fault hf := .refused fault fault hf hf
  schema fault _ := .openLeft (.schema fault) _ trivial
  bind h hf := h.bind hf
  next h hnext := h.next hnext

/-! ## 2. Null -/

section Null

theorem checkUnion_null_yields {checker : Checker} {path : Path} {members : List Ty}
    (h : ∀ member ∈ members, Yields (checker member .null path) (· = .null)) :
    Yields (checkUnion checker members .null path) (· = .null) := by
  induction members with
  | nil => exact .error _
  | cons ty rest ih =>
    rw [List.forall_mem_cons] at h
    rw [checkUnion_cons]
    cases hty : checker ty .null path with
    | ok out => exact .ok (h.1 out hty)
    | error fault =>
      by_cases hm : fault.isMismatch = true
      · rw [orNext_of_isMismatch hm]
        exact ih h.2
      · rw [orNext_of_not_isMismatch hm]
        exact .error fault

theorem checkContainer_null_yields (checker : Checker) (kind : ContainerKind) (elems : List Ty)
    (variadic : Bool) (path : Path) :
    Yields (checkContainer checker kind elems variadic .null path) (· = .null) := by
  unfold checkContainer
  split <;> exact .error _

theorem checkFields_null_yields (checker : Checker) (s : StructDef) (args : List Ty) (path : Path)
    (p : Entries Json → Prop) : Yields (checkFields checker s args .null path) p :=
  Yields.always.bind fun _ _ => .error _

/-- **Nothing but null is made of null**, by any type. -/
theorem check_null_yields (types : TypeTable) (left : Nat) (ty : Ty) (path : Path) :
    Yields (check types left ty .null path) (· = .null) := by
  induction left generalizing ty path with
  | zero => exact .error _
  | succ left ih =>
    have haccept : ∀ ok expected, Yields (accept ok .null path expected) (· = .null) :=
      fun ok expected => (accept_yields ok .null path expected).mono fun _ h => h.1
    cases ty with
    | primitive kind => cases kind <;> exact haccept _ _
    | any => exact .ok rfl
    | generic name => exact .ok rfl
    | absent => exact haccept _ _
    | optional inner => exact .ok rfl
    | literals values => exact haccept _ _
    | union members => exact checkUnion_null_yields fun member _ => ih member path
    | container kind elems variadic => exact checkContainer_null_yields _ kind elems variadic path
    | named target args =>
      cases hget : types.get target with
      | error fault =>
        rw [check_named_of_error hget]
        exact .error _
      | ok body =>
        rw [check_named hget]
        cases body with
        | struct s => exact (checkFields_null_yields _ s args path fun _ => False).map nofun
        | enumeration e => exact haccept _ _
        | «alias» a => exact Yields.always.bind fun _ _ => ih _ path

end Null

/-! ## 3. The check -/

section Check

variable {types : TypeTable} {left : Nat}

/-- A type that cannot be written takes no value. -/
theorem check_unwritable {ty : Ty} (h : ty.IsUnwritable) (v : Json) (path : Path) :
    ∃ fault, checkStep types (check types left) ty v path = .error fault ∧
      (fault.isMismatch = true ∨ fault.IsOpen) := by
  cases h with
  | union => exact ⟨_, rfl, .inl rfl⟩
  | literals => exact ⟨_, rfl, .inl rfl⟩
  | container kind elems variadic h =>
    exact ⟨_, checkContainer_of_not_admits h _ v path, .inr trivial⟩

theorem concurs_of_unwritable {ty ty' : Ty} (h : ty.IsUnwritable) (h' : ty'.IsUnwritable)
    (v : Json) (path : Path) : Concurs (checkStep types (check types left) ty v path)
      (checkStep types (check types left) ty' v path) := by
  obtain ⟨fault, heq, hfault⟩ := check_unwritable h v path
  obtain ⟨fault', heq', hfault'⟩ := check_unwritable h' v path
  rw [heq, heq']
  rcases hfault with hm | ho
  · rcases hfault' with hm' | ho'
    · exact .refused fault fault' hm hm'
    · exact .openRight _ fault' ho'
  · exact .openLeft fault _ ho

/-- The type of null and the literal null. -/
theorem concurs_null_literal (v : Json) (path : Path) :
    Concurs (checkStep types (check types left) .null v path)
      (checkStep types (check types left) (.literals [.null]) v path) := by
  have hsame : ([Json.null].any fun w => w == v) = v.isNull := by cases v <;> rfl
  change Concurs (accept v.isNull v path .null)
    (accept ([Json.null].any fun w => w == v) v path (.oneOf [.null]))
  rw [hsame]
  unfold accept
  split
  · exact .ok v
  · exact .refused _ _ rfl rfl

/-- An optional type and the union with absence. A value that is not null has to be taken by the
    type in both; null may be taken by the type first, which makes null of it too. -/
theorem concurs_optional_union {inner member : Ty}
    (h : InStep (fun _ => Concurs) (check types left) (check types left) inner member)
    (hself : InStep (fun _ => Concurs) (check types left) (check types left) member member)
    (v : Json) (path : Path) : Concurs (checkStep types (check types left) (.optional inner) v path)
      (checkStep types (check types left) (.union [member, .absent]) v path) := by
  change Concurs (if v.isNull then .ok .null else check types left inner v path)
    (checkUnion (check types left) [member, .absent] v path)
  rw [checkUnion_cons, checkUnion_cons]
  cases left with
  | zero => exact .openRight _ (.tooDeep path) trivial
  | succ left =>
    change Concurs _ (orNext (check types (left + 1) member v path)
      (orNext (accept v.isNull v path .absence) (.error (.mismatch path .unionMember))))
    by_cases hnull : v.isNull = true
    · obtain rfl : v = .null := by cases v <;> first | rfl | cases hnull
      rw [if_pos hnull]
      exact (hself .null path).orNext_null (check_null_yields types (left + 1) member path)
    · have hrefused : accept v.isNull v path .absence = .error (.mismatch path .absence) :=
        if_neg hnull
      rw [if_neg hnull, hrefused, orNext_of_isMismatch rfl]
      exact (h v path).orNext_refused rfl

/-- Types with the same phrases, in pairs. -/
theorem forall₂_of_map_phrase {rel : Ty → Ty → Prop} {tys tys' : List Ty} {ps : List Phrase}
    (h : tys.map Ty.phrase = ps) (h' : tys'.map Ty.phrase = ps)
    (hrel : ∀ ty ty' : Ty, ty.phrase = ty'.phrase → rel ty ty') : List.Forall₂ rel tys tys' := by
  have hsame : List.Forall₂ Eq (tys.map Ty.phrase) (tys'.map Ty.phrase) := by
    rw [List.forall₂_eq_eq_eq, h, h']
  rw [List.forall₂_map_left_iff, List.forall₂_map_right_iff] at hsame
  exact hsame.imp fun {ty ty'} => hrel ty ty'

/-- The type of numbers is alone with its phrase. -/
theorem phrase_eq_number_iff {ty : Ty} : ty.phrase = .keyword .number ↔ ty = .number := by
  constructor
  · intro h
    have hsays := ty.says_phrase
    rw [h] at hsays
    cases hsays
    rfl
  · rintro rfl
    rfl

/-- And so is absence. -/
theorem eq_absent_of_phrase {ty : Ty} (h : ty.phrase = .keyword .undefined) : ty = .absent := by
  have hsays := ty.says_phrase
  rw [h] at hsays
  cases hsays
  rfl

/-- **Types with one phrase take the same values and make the same of them.** The induction is on
    the levels; the phrase of a type says which types it hands on to, up to types with one
    phrase. -/
theorem check_concurs (types : TypeTable) (left : Nat) {ty ty' : Ty} (h : ty.phrase = ty'.phrase) :
    InStep (fun _ => Concurs) (check types left) (check types left) ty ty' := by
  induction left generalizing ty ty' with
  | zero => exact fun v path => .openLeft _ _ trivial
  | succ left ih =>
    intro v path
    have hsays := ty.says_phrase
    have hsays' := ty'.says_phrase
    rw [h] at hsays
    generalize ty'.phrase = p at hsays hsays'
    have haccept := kept_concurs.accept
    rw [check_succ]
    cases hsays with
    | null =>
      cases hsays' with
      | null => exact haccept _ v path _
      | literals => exact concurs_null_literal v path
    | bool => cases hsays'; exact haccept _ v path _
    | number => cases hsays'; exact haccept _ v path _
    | string => cases hsays'; exact haccept _ v path _
    | any => cases hsays'; exact .ok v
    | absent => cases hsays'; exact haccept _ v path _
    | generic name => cases hsays'; exact .ok v
    | literals first rest =>
      cases hsays' with
      | null => exact (concurs_null_literal v path).symm
      | literals => exact haccept _ v path _
    | named target args ps hps =>
      cases hsays' with
      | named _ args' _ hps' =>
        have hargs : args.map Ty.phrase = args'.map Ty.phrase := hps.trans hps'.symm
        cases hget : types.get target with
        | error fault =>
          simp only [checkStep, hget]
          exact .openLeft _ _ trivial
        | ok body =>
          have hlength : args.length = args'.length := by
            rw [← List.length_map, hargs, List.length_map]
          simp only [checkStep, hget]
          refine checkDefinition_inStep kept_concurs hlength (fun _ => trivial)
            (fun _ ty _ => ih ?_) v path
          exact Ty.phrase_substitute (Ty.map_phrase_bind hargs body.generics) ty
    | array elem variadic p hp =>
      cases hsays' with
      | array elem' variadic' _ hp' =>
        exact checkContainer_items_inStep kept_concurs (ih (hp.trans hp'.symm)) v path
      | variadic elem' _ hp' =>
        exact checkContainer_items_inStep kept_concurs (ih (hp.trans hp'.symm)) v path
    | variadic elem p hp =>
      cases hsays' with
      | array elem' variadic' _ hp' =>
        exact checkContainer_items_inStep kept_concurs (ih (hp.trans hp'.symm)) v path
      | variadic elem' _ hp' =>
        exact checkContainer_items_inStep kept_concurs (ih (hp.trans hp'.symm)) v path
    | tuple elems ps hps =>
      cases hsays' with
      | tuple elems' _ hps' =>
        have hplaces := forall₂_of_map_phrase hps hps' fun _ _ h => ih h
        exact checkContainer_places_inStep kept_concurs hplaces v path
    | record key value p q hkey hvalue =>
      cases hsays' with
      | record key' value' _ _ hkey' hvalue' =>
        have hnumber : key = .number ↔ key' = .number := by
          rw [← phrase_eq_number_iff, ← phrase_eq_number_iff, hkey, hkey']
        exact checkContainer_entries_inStep kept_concurs hnumber (ih (hkey.trans hkey'.symm))
          (ih (hvalue.trans hvalue'.symm)) v path
    | union first rest p ps hfirst hrest =>
      cases hsays' with
      | union first' rest' _ _ hfirst' hrest' =>
        have hmembers := forall₂_of_map_phrase hrest hrest' fun _ _ h => ih h
        exact checkUnion_inStep kept_concurs (.cons (ih (hfirst.trans hfirst'.symm)) hmembers)
          v path
      | optional inner _ hinner =>
        obtain ⟨last, rfl, hlast⟩ := List.map_eq_singleton_iff.mp hrest
        obtain rfl := eq_absent_of_phrase hlast
        exact (concurs_optional_union (ih (hinner.trans hfirst.symm)) (ih rfl) v path).symm
    | optional inner p hinner =>
      cases hsays' with
      | union first rest _ _ hfirst hrest =>
        obtain ⟨last, rfl, hlast⟩ := List.map_eq_singleton_iff.mp hrest
        obtain rfl := eq_absent_of_phrase hlast
        exact concurs_optional_union (ih (hinner.trans hfirst.symm)) (ih rfl) v path
      | optional inner' _ hinner' =>
        change Concurs (if v.isNull then .ok .null else check types left inner v path)
          (if v.isNull then .ok .null else check types left inner' v path)
        split
        · exact .ok Json.null
        · exact ih (hinner.trans hinner'.symm) v path
    | nothing _ hty =>
      cases hsays' with
      | nothing _ hty' => exact concurs_of_unwritable hty hty' v path

end Check

end WireContract.Wire
