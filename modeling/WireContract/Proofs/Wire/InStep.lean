import Mathlib.Data.List.Forall2
import Mathlib.Logic.Relation
import WireContract.Proofs.Type.Soundness
import WireContract.Wire.Check

/-!
# Two checks in step

Two comparisons that differ in what they do for some types give the same for others: a type hands on
to few types, and what the check does besides is the same in both. The same goes for one comparison
with two types that hand on to types in pairs. Which relation between outcomes is asked for does not
matter much, as long as the check's ways to put outcomes together keep it.

* `Hands`, `Reaches`: from which type the check comes to which others, at once and at all;
* `OwnFault`: what it finds at fault with a type by itself;
* `Kept`: a relation between outcomes that the check keeps;
* `checkUnion_inStep` and its neighbours: every part of the check keeps it;
* `checkStep`, `checkStep_inStep`: and so does one level of the whole.
-/

namespace WireContract.Wire

/-! ## 1. One level -/

/-- One level of the check, with a comparison for what is inside. -/
def checkStep (types : TypeTable) (checker : Checker) : Checker := fun ty v path =>
  match ty with
  | .primitive .null => accept v.isNull v path .null
  | .primitive .bool => accept v.isBool v path .boolean
  | .primitive .number => accept v.isNumber v path .number
  | .primitive .string => accept v.isString v path .string
  | .any => .ok v
  | .generic _ => .ok v
  | .absent => accept v.isNull v path .absence
  | .optional inner => if v.isNull then .ok .null else checker inner v path
  | .literals values => accept (values.any fun w => w == v) v path (.oneOf values)
  | .union members => checkUnion checker members v path
  | .container kind elems variadic => checkContainer checker kind elems variadic v path
  | .named target args =>
    match types.get target with
    | .error fault => .error (.schema fault)
    | .ok body => checkDefinition checker body args v path

/-- The check is made of such levels. -/
theorem check_succ (types : TypeTable) (left : Nat) :
    check types (left + 1) = checkStep types (check types left) := rfl

/-- The types that the check comes to next from a type. A definition is opened only if the reference
    passes as many arguments as it has parameters. -/
inductive Hands (types : TypeTable) : Ty → Ty → Prop where
  | optional (inner : Ty) : Hands types (.optional inner) inner
  | union (members : List Ty) (member : Ty) (h : member ∈ members) :
      Hands types (.union members) member
  | container (kind : ContainerKind) (elems : List Ty) (variadic : Bool) (elem : Ty)
      (h : elem ∈ elems) : Hands types (.container kind elems variadic) elem
  | named (target : DefId) (args : List Ty) (body : Definition) (ty : Ty)
      (hb : types.get target = .ok body) (hl : body.generics.length = args.length)
      (h : ty ∈ body.expressions) :
      Hands types (.named target args) (ty.substitute (Ty.bind body.generics args))

/-- The types that a check which starts with one may come to, that one included. -/
def Reaches (types : TypeTable) : Ty → Ty → Prop := Relation.ReflTransGen (Hands types)

/-- From a type of a kind that hands on to its own kind only the check comes to this kind only. -/
theorem Reaches.closed {types : TypeTable} {p : Ty → Prop}
    (hp : ∀ ty inner, p ty → Hands types ty inner → p inner) {ty inner : Ty} (h : p ty)
    (hreaches : Reaches types ty inner) : p inner := by
  induction hreaches with
  | refl => exact h
  | tail _ hhands ih => exact hp _ _ ih hhands

/-- What the check may find at fault with a type, whatever is inside it. -/
inductive OwnFault (types : TypeTable) : Ty → SchemaFault → Prop where
  | get (target : DefId) (args : List Ty) (fault : SchemaFault)
      (h : types.get target = .error fault) : OwnFault types (.named target args) fault
  | arity (target : DefId) (args : List Ty) (body : Definition)
      (hb : types.get target = .ok body) (hl : body.generics.length ≠ args.length) :
      OwnFault types (.named target args)
        (.genericArity body.name body.generics.length args.length)
  | container (kind : ContainerKind) (elems : List Ty) (variadic : Bool)
      (h : ¬ kind.Admits elems.length variadic) :
      OwnFault types (.container kind elems variadic)
        (.unsupportedType (Ty.container kind elems variadic).describe)

/-! ## 2. Relations -/

/-- The second outcome in place of the first if that is a mismatch. -/
def orNext (outcome next : Except Fault Json) : Except Fault Json :=
  match outcome with
  | .ok out => .ok out
  | .error fault => if fault.isMismatch then next else .error fault

theorem orNext_of_isMismatch {fault : Fault} (h : fault.isMismatch = true)
    (next : Except Fault Json) : orNext (.error fault) next = next := if_pos h

theorem orNext_of_not_isMismatch {fault : Fault} (h : ¬ fault.isMismatch = true)
    (next : Except Fault Json) : orNext (.error fault) next = .error fault := if_neg h

theorem checkUnion_cons (checker : Checker) (ty : Ty) (rest : List Ty) (v : Json) (path : Path) :
    checkUnion checker (ty :: rest) v path =
      orNext (checker ty v path) (checkUnion checker rest v path) := by
  cases h : checker ty v path <;> simp [checkUnion, orNext, h]

/-- A relation between outcomes that the check keeps: it holds of what the check gives by itself,
    where of the faults of types only those count that are in question, and it goes through the ways
    in which outcomes are put together. -/
structure Kept (blamed : SchemaFault → Prop)
    (rel : (α : Type) → Except Fault α → Except Fault α → Prop) : Prop where
  ok : ∀ {α : Type} (a : α), rel α (.ok a) (.ok a)
  refused : ∀ {α : Type} (fault : Fault), fault.isMismatch = true →
    rel α (.error fault) (.error fault)
  schema : ∀ {α : Type} (fault : SchemaFault), blamed fault →
    rel α (.error (.schema fault)) (.error (.schema fault))
  bind : ∀ {α β : Type} {x y : Except Fault α} {f g : α → Except Fault β}, rel α x y →
    (∀ a, rel β (f a) (g a)) → rel β (x >>= f) (y >>= g)
  next : ∀ {x y x' y' : Except Fault Json}, rel Json x y → rel Json x' y' →
    rel Json (orNext x x') (orNext y y')

namespace Kept

variable {blamed : SchemaFault → Prop} {rel : (α : Type) → Except Fault α → Except Fault α → Prop}
  (hrel : Kept blamed rel)

include hrel

theorem map {α β : Type} {x y : Except Fault α} (f : α → β) (h : rel α x y) :
    rel β (x.map f) (y.map f) := by
  have hx : ∀ x : Except Fault α, x.map f = x >>= fun a => .ok (f a) := fun x => by cases x <;> rfl
  rw [hx x, hx y]
  exact hrel.bind h fun a => hrel.ok (f a)

theorem accept (ok : Bool) (v : Json) (path : Path) (expected : Expected) :
    rel Json (accept ok v path expected) (accept ok v path expected) := by
  unfold Wire.accept
  split
  · exact hrel.ok v
  · exact hrel.refused _ rfl

/-- What follows on the count of arguments is done only if the count is right. -/
theorem behindArity {α : Type} (name : String) {generics : List String} {args : List Ty}
    {x y : Except Fault α}
    (harity : generics.length ≠ args.length →
      blamed (.genericArity name generics.length args.length))
    (h : generics.length = args.length → rel α x y) :
    rel α (checkArity name generics args >>= fun _ => x)
      (checkArity name generics args >>= fun _ => y) := by
  unfold checkArity
  split
  · rename_i hl
    exact h hl
  · rename_i hl
    exact hrel.schema _ (harity hl)

end Kept

/-! ## 3. The parts of the check -/

theorem checkKey_number (checker : Checker) (key : String) (path : Path) :
    checkKey checker .number key path =
      if Binary64.isFiniteDecimal key.toList then
        (checker .number (.number (.float (.zero false))) path).map fun _ => ()
      else .error (.mismatch path .numericKey) := rfl

theorem checkKey_of_ne {ty : Ty} (h : ty ≠ .number) (checker : Checker) (key : String)
    (path : Path) :
    checkKey checker ty key path = (checker ty (.string key) path).map fun _ => () := by
  unfold checkKey
  split
  · exact absurd rfl h
  · rfl

/-- Only the number of arguments counts. -/
theorem checkArity_congr (name : String) (generics : List String) {args args' : List Ty}
    (h : args.length = args'.length) :
    checkArity name generics args = checkArity name generics args' := by
  rw [checkArity, checkArity, h]

theorem checkContainer_tuple (checker : Checker) (elems : List Ty) (v : Json) (path : Path) :
    checkContainer checker .tuple elems false v path =
      match v.items? with
      | none => .error (.mismatch path .array)
      | some vs =>
        if vs.length ≠ elems.length then .error (.mismatch path (.arrayOfLength elems.length))
        else (checkPlaces checker path 0 elems vs).map .array := by
  rcases elems with _ | ⟨first, _ | ⟨second, rest⟩⟩ <;> rfl

theorem checkContainer_record (checker : Checker) (keyTy valueTy : Ty) (v : Json) (path : Path) :
    checkContainer checker .record [keyTy, valueTy] false v path =
      match v.members? with
      | none => .error (.mismatch path .object)
      | some members => (checkEntries checker keyTy valueTy path members []).map .object := rfl

/-- A container that its kind does not allow is a fault of the type. -/
theorem checkContainer_of_not_admits {kind : ContainerKind} {elems : List Ty} {variadic : Bool}
    (h : ¬ kind.Admits elems.length variadic) (checker : Checker) (v : Json) (path : Path) :
    checkContainer checker kind elems variadic v path =
      .error (.schema (.unsupportedType (Ty.container kind elems variadic).describe)) := by
  rcases elems with _ | ⟨first, _ | ⟨second, _ | ⟨third, rest⟩⟩⟩ <;> cases kind <;>
    cases variadic <;> first | rfl | exact absurd (by simp [ContainerKind.Admits]) h

/-- Two comparisons give related outcomes, each for a type. -/
def InStep (rel : (α : Type) → Except Fault α → Except Fault α → Prop) (c c' : Checker)
    (ty ty' : Ty) : Prop :=
  ∀ v path, rel Json (c ty v path) (c' ty' v path)

section Parts

variable {blamed : SchemaFault → Prop} {rel : (α : Type) → Except Fault α → Except Fault α → Prop}
  (hrel : Kept blamed rel) {c c' : Checker}

include hrel

theorem checkUnion_inStep {members members' : List Ty}
    (h : List.Forall₂ (InStep rel c c') members members') (v : Json) (path : Path) :
    rel Json (checkUnion c members v path) (checkUnion c' members' v path) := by
  induction h with
  | nil => exact hrel.refused _ rfl
  | cons hfirst _ ih =>
    rw [checkUnion_cons, checkUnion_cons]
    exact hrel.next (hfirst v path) ih

theorem checkItems_inStep {elem elem' : Ty} (h : InStep rel c c' elem elem') (path : Path)
    (index : Nat) (items : List Json) :
    rel _ (checkItems c elem path index items) (checkItems c' elem' path index items) := by
  induction items generalizing index with
  | nil => exact hrel.ok []
  | cons v rest ih =>
    unfold checkItems
    exact hrel.bind (h v _) fun out => hrel.bind (ih (index + 1)) fun outs => hrel.ok (out :: outs)

theorem checkPlaces_inStep {elems elems' : List Ty}
    (h : List.Forall₂ (InStep rel c c') elems elems') (path : Path) (index : Nat)
    (items : List Json) :
    rel _ (checkPlaces c path index elems items) (checkPlaces c' path index elems' items) := by
  induction h generalizing index items with
  | nil => exact hrel.ok []
  | cons hfirst _ ih =>
    cases items with
    | nil => exact hrel.ok []
    | cons v rest =>
      unfold checkPlaces
      exact hrel.bind (hfirst v _) fun out =>
        hrel.bind (ih (index + 1) rest) fun outs => hrel.ok (out :: outs)

/-- Keys are taken as numbers for both types or for neither. -/
theorem checkKey_inStep {ty ty' : Ty} (hnumber : ty = .number ↔ ty' = .number)
    (h : InStep rel c c' ty ty') (key : String) (path : Path) :
    rel Unit (checkKey c ty key path) (checkKey c' ty' key path) := by
  by_cases hty : ty = .number
  · obtain rfl := hnumber.mp hty
    subst hty
    rw [checkKey_number, checkKey_number]
    split
    · exact hrel.map _ (h _ path)
    · exact hrel.refused _ rfl
  · rw [checkKey_of_ne hty, checkKey_of_ne fun hty' => hty (hnumber.mpr hty')]
    exact hrel.map _ (h _ path)

theorem checkEntries_inStep {keyTy keyTy' valueTy valueTy' : Ty}
    (hnumber : keyTy = .number ↔ keyTy' = .number) (hkey : InStep rel c c' keyTy keyTy')
    (hvalue : InStep rel c c' valueTy valueTy') (path : Path) (members done : Entries Json) :
    rel _ (checkEntries c keyTy valueTy path members done)
      (checkEntries c' keyTy' valueTy' path members done) := by
  induction members generalizing done with
  | nil => exact hrel.ok done
  | cons e rest ih =>
    obtain ⟨key, v⟩ := e
    unfold checkEntries
    refine hrel.bind (checkKey_inStep hrel hnumber hkey key _) fun _ => ?_
    exact hrel.bind (hvalue v _) fun out => ih (done.put key out)

theorem checkMembers_inStep {bindings bindings' : Ty.Bindings} {fields : List Field}
    (h : ∀ f ∈ fields,
      InStep rel c c' (f.shape.1.substitute bindings) (f.shape.1.substitute bindings'))
    (object : Entries Json) (path : Path) (done : Entries Json) :
    rel _ (checkMembers c bindings object path fields done)
      (checkMembers c' bindings' object path fields done) := by
  induction fields generalizing done with
  | nil => exact hrel.ok done
  | cons f rest ih =>
    rw [List.forall_mem_cons] at h
    unfold checkMembers
    split
    · exact hrel.bind (h.1 _ _) fun out => ih h.2 (done.put f.name out)
    · split
      · exact ih h.2 _
      · split
        · exact hrel.refused _ rfl
        · exact ih h.2 done

theorem checkFields_inStep {s : StructDef} {args args' : List Ty}
    (hlength : args.length = args'.length)
    (harity : s.generics.length ≠ args.length →
      blamed (.genericArity s.name s.generics.length args.length))
    (h : s.generics.length = args.length → ∀ f ∈ s.fields,
      InStep rel c c' (f.shape.1.substitute (Ty.bind s.generics args))
        (f.shape.1.substitute (Ty.bind s.generics args'))) (v : Json) (path : Path) :
    rel _ (checkFields c s args v path) (checkFields c' s args' v path) := by
  unfold checkFields
  rw [checkArity_congr s.name s.generics hlength.symm]
  refine hrel.behindArity s.name harity fun hl => ?_
  split
  · exact hrel.refused _ rfl
  · exact checkMembers_inStep hrel (h hl) _ path []

theorem checkContainer_items_inStep {elem elem' : Ty} (h : InStep rel c c' elem elem') (v : Json)
    (path : Path) :
    rel Json (checkContainer.items c v path elem) (checkContainer.items c' v path elem') := by
  unfold checkContainer.items
  split
  · exact hrel.refused _ rfl
  · exact hrel.map _ (checkItems_inStep hrel h path 0 _)

theorem checkContainer_places_inStep {elems elems' : List Ty}
    (h : List.Forall₂ (InStep rel c c') elems elems') (v : Json) (path : Path) :
    rel Json (checkContainer c .tuple elems false v path)
      (checkContainer c' .tuple elems' false v path) := by
  rw [checkContainer_tuple, checkContainer_tuple, h.length_eq]
  split
  · exact hrel.refused _ rfl
  · split
    · exact hrel.refused _ rfl
    · exact hrel.map _ (checkPlaces_inStep hrel h path 0 _)

theorem checkContainer_entries_inStep {keyTy keyTy' valueTy valueTy' : Ty}
    (hnumber : keyTy = .number ↔ keyTy' = .number) (hkey : InStep rel c c' keyTy keyTy')
    (hvalue : InStep rel c c' valueTy valueTy') (v : Json) (path : Path) :
    rel Json (checkContainer c .record [keyTy, valueTy] false v path)
      (checkContainer c' .record [keyTy', valueTy'] false v path) := by
  rw [checkContainer_record, checkContainer_record]
  split
  · exact hrel.refused _ rfl
  · exact hrel.map _ (checkEntries_inStep hrel hnumber hkey hvalue path _ [])

theorem checkContainer_inStep {kind : ContainerKind} {elems : List Ty} {variadic : Bool}
    (hadmits : ¬ kind.Admits elems.length variadic →
      blamed (.unsupportedType (Ty.container kind elems variadic).describe))
    (h : ∀ elem ∈ elems, InStep rel c c' elem elem) (v : Json) (path : Path) :
    rel Json (checkContainer c kind elems variadic v path)
      (checkContainer c' kind elems variadic v path) := by
  by_cases hfits : kind.Admits elems.length variadic
  · cases hfits.form with
    | array elem => exact checkContainer_items_inStep hrel (h elem List.mem_cons_self) v path
    | variadic elem => exact checkContainer_items_inStep hrel (h elem List.mem_cons_self) v path
    | tuple => exact checkContainer_places_inStep hrel (List.forall₂_same.mpr h) v path
    | record key value =>
      rw [List.forall_mem_cons, List.forall_mem_singleton] at h
      exact checkContainer_entries_inStep hrel Iff.rfl h.1 h.2 v path
  · rw [checkContainer_of_not_admits hfits, checkContainer_of_not_admits hfits]
    exact hrel.schema _ (hadmits hfits)

theorem checkDefinition_inStep {body : Definition} {args args' : List Ty}
    (hlength : args.length = args'.length)
    (harity : body.generics.length ≠ args.length →
      blamed (.genericArity body.name body.generics.length args.length))
    (h : body.generics.length = args.length → ∀ ty ∈ body.expressions,
      InStep rel c c' (ty.substitute (Ty.bind body.generics args))
        (ty.substitute (Ty.bind body.generics args'))) (v : Json) (path : Path) :
    rel Json (checkDefinition c body args v path) (checkDefinition c' body args' v path) := by
  cases body with
  | struct s =>
    refine hrel.map _ (checkFields_inStep hrel hlength harity (fun hl f hf => ?_) v path)
    exact h hl _ (List.mem_map_of_mem hf)
  | enumeration e => exact hrel.accept _ v path _
  | «alias» a =>
    change rel Json (checkArity a.name a.generics args >>= fun _ => c _ v path)
      (checkArity a.name a.generics args' >>= fun _ => c' _ v path)
    rw [checkArity_congr a.name a.generics hlength.symm]
    exact hrel.behindArity a.name harity fun hl => h hl a.ty List.mem_cons_self v path

/-- **One level of the check keeps the relation** at a type, as far as the comparisons for what is
    inside do so at the types that the check comes to next. -/
theorem checkStep_inStep {types : TypeTable} {ty : Ty}
    (hown : ∀ fault, OwnFault types ty fault → blamed fault)
    (h : ∀ inner, Hands types ty inner → InStep rel c c' inner inner) :
    InStep rel (checkStep types c) (checkStep types c') ty ty := by
  intro v path
  cases ty with
  | primitive kind => cases kind <;> exact hrel.accept _ v path _
  | any => exact hrel.ok v
  | generic name => exact hrel.ok v
  | absent => exact hrel.accept _ v path _
  | optional inner =>
    change rel Json (if v.isNull then .ok .null else c inner v path)
      (if v.isNull then .ok .null else c' inner v path)
    split
    · exact hrel.ok Json.null
    · exact h inner (.optional inner) v path
  | literals values => exact hrel.accept _ v path _
  | union members =>
    have hmembers := fun member hm => h member (.union members member hm)
    exact checkUnion_inStep hrel (List.forall₂_same.mpr hmembers) v path
  | container kind elems variadic =>
    have hadmits := fun hn => hown _ (.container kind elems variadic hn)
    refine checkContainer_inStep hrel hadmits (fun elem he => ?_) v path
    exact h elem (.container kind elems variadic elem he)
  | named target args =>
    cases hget : types.get target with
    | error fault =>
      simp only [checkStep, hget]
      exact hrel.schema fault (hown _ (.get target args fault hget))
    | ok body =>
      simp only [checkStep, hget]
      have harity := fun hl => hown _ (.arity target args body hget hl)
      refine checkDefinition_inStep hrel rfl harity (fun hl ty hty => ?_) v path
      exact h _ (.named target args body ty hget hl hty)

end Parts

end WireContract.Wire
