import WireContract.Proofs.Wire.Concurrence
import WireContract.Proofs.Wire.Membership
import WireContract.Proofs.Wire.Omission

/-!
# Key types of records

Keys arrive as strings, and only where the key type is the type of numbers itself is a key taken as
the number that it denotes. An alias for the type of numbers and a union that has it among its
members see a string, and refuse it. Apart from that a key type may be taken apart like any other
type: an alias stands for its body, and a union for its members.

* `Decided`: an outcome that says something of the value;
* `keyFits_alias_iff`, `keyFits_union_iff`: the rule for keys, for an alias and for a union;
* `record_keys_compose`: exactly when an alias as the key type may be replaced by its body, and a
  key of a union is one of a member.
-/

namespace WireContract.Wire

/-! ## 1. Decided outcomes -/

/-- Whether an outcome says something of the value: the check neither went too deep nor met a fault
    of the type. -/
def Decided {α : Type} (outcome : Except Fault α) : Prop :=
  ∀ fault, outcome = .error fault → ¬ fault.IsOpen

theorem decided_ok {α : Type} (a : α) : Decided (.ok a) := fun _ h => nomatch h

theorem decided_mismatch {α : Type} {fault : Fault} (h : fault.isMismatch = true) :
    Decided (.error fault : Except Fault α) := by
  intro other heq hopen
  cases heq
  exact hopen.not_isMismatch h

/-- What is decided is accepted exactly if what it settles is so. -/
theorem Settles.accepted_iff {α : Type} {outcome : Except Fault α} {p : Prop}
    (h : Settles outcome p) (hd : Decided outcome) : Accepted outcome ↔ p := by
  cases outcome with
  | ok a => exact iff_of_true ⟨a, rfl⟩ h
  | error fault =>
    refine iff_of_false (not_accepted_error fault) ?_
    cases fault with
    | mismatch => exact h
    | missing => exact h
    | tooDeep path => exact absurd trivial (hd _ rfl)
    | schema reason => exact absurd trivial (hd _ rfl)
    | notJson => exact h.elim

/-! ## 2. Keys -/

section Keys

variable {types : TypeTable}

/-- A string is no number. -/
theorem not_inhabits_number_string (key : String) : ¬ Inhabits types .number (.string key) :=
  fun h => nomatch h

/-- An alias sees the key as a string, and so does its body unless it is the type of numbers. -/
theorem keyFits_alias_iff {target : DefId} {args : List Ty} {a : AliasDef} {body : Ty}
    (ha : types.get target = .ok (.alias a))
    (hbody : a.ty.substitute (Ty.bind a.generics args) = body) (key : String) :
    KeyFits (Inhabits types) (.named target args) key ↔
      body ≠ .number ∧ KeyFits (Inhabits types) body key := by
  have hne : Ty.named target args ≠ .number := nofun
  rw [keyFits_of_ne hne, inhabits_alias_iff ha, hbody]
  by_cases hnumber : body = .number
  · rw [hnumber]
    exact iff_of_false (not_inhabits_number_string key) fun h => h.1 rfl
  · rw [keyFits_of_ne hnumber]
    exact (and_iff_right hnumber).symm

/-- A union sees the key as a string, and so does every member but the type of numbers. -/
theorem keyFits_union_iff {members : List Ty} (key : String) :
    KeyFits (Inhabits types) (.union members) key ↔
      ∃ member ∈ members, member ≠ .number ∧ KeyFits (Inhabits types) member key := by
  have hne : Ty.union members ≠ .number := nofun
  rw [keyFits_of_ne hne, inhabits_union_iff]
  refine exists_congr fun member => and_congr_right fun _ => ?_
  by_cases hnumber : member = .number
  · subst hnumber
    exact iff_of_false (not_inhabits_number_string key) fun h => h.1 rfl
  · rw [keyFits_of_ne hnumber]
    exact (and_iff_right hnumber).symm

theorem checkKey_decides (level : Nat) (ty : Ty) (key : String) (path : Path) :
    Settles (checkKey (checkFrom types level) ty key path) (KeyFits (Inhabits types) ty key) :=
  checkKey_settles (check_settles types _) .number ty key path

theorem checkFrom_record_settles (level : Nat) (keyTy valueTy : Ty) (members : Entries Json)
    (path : Path) :
    Settles (checkFrom types level (.record keyTy valueTy) (.object members) path)
      (∀ e ∈ members, KeyFits (Inhabits types) keyTy e.1 ∧ Inhabits types valueTy e.2) := by
  refine (check_settles types _ _ _ path).congr (inhabits_record_iff.trans ⟨?_, ?_⟩)
  · rintro ⟨members', heq, h⟩
    cases heq
    exact h
  · exact fun h => ⟨members, rfl, h⟩

/-- What an alias for the type of numbers leaves of the objects: the one without members. -/
theorem forall_keyFits_alias_iff {target : DefId} {args : List Ty} {a : AliasDef}
    (ha : types.get target = .ok (.alias a))
    (hbody : a.ty.substitute (Ty.bind a.generics args) = .number) {valueTy : Ty}
    {members : Entries Json} :
    (∀ e ∈ members, KeyFits (Inhabits types) (.named target args) e.1 ∧
      Inhabits types valueTy e.2) ↔ members = [] := by
  cases members with
  | nil => exact iff_of_true (fun e he => absurd he List.not_mem_nil) rfl
  | cons first rest =>
    refine iff_of_false (fun h => ?_) (List.cons_ne_nil first rest)
    exact ((keyFits_alias_iff ha hbody first.1).mp (h first List.mem_cons_self).1).1 rfl

end Keys

/-! ## 3. Records -/

/-- **When key types may be taken apart.** As far as the checks come to a decision: an alias as the
    key type may be replaced by its body exactly if that is not the type of numbers, or the object
    has no members, or is refused with the body. And a union takes a key exactly if one of its
    members does, unless the member is the type of numbers, the key is written like one, and no
    other member takes it. -/
theorem record_keys_compose (types : TypeTable) (level level' : Nat) (path path' : Path) :
    (∀ target args a body valueTy (members : Entries Json),
      types.get target = .ok (.alias a) → a.ty.substitute (Ty.bind a.generics args) = body →
      Decided (checkFrom types level (.record (.named target args) valueTy) (.object members)
        path) →
      Decided (checkFrom types level' (.record body valueTy) (.object members) path') →
      ((Accepted (checkFrom types level (.record (.named target args) valueTy) (.object members)
          path) ↔
        Accepted (checkFrom types level' (.record body valueTy) (.object members) path')) ↔
        (body = .number → members = [] ∨
          ¬ Accepted (checkFrom types level' (.record body valueTy) (.object members) path')))) ∧
    ∀ members key,
      Decided (checkKey (checkFrom types level) (.union members) key path) →
      (∀ member ∈ members, Decided (checkKey (checkFrom types level') member key path')) →
      ((Accepted (checkKey (checkFrom types level) (.union members) key path) ↔
        ∃ member ∈ members, Accepted (checkKey (checkFrom types level') member key path')) ↔
        (.number ∈ members → Binary64.isFiniteDecimal key.toList = true →
          ∃ member ∈ members, member ≠ .number ∧
            Accepted (checkKey (checkFrom types level') member key path'))) := by
  constructor
  · intro target args a body valueTy members ha hbody hnamed hdirect
    rw [(checkFrom_record_settles level _ _ _ path).accepted_iff hnamed,
      (checkFrom_record_settles level' _ _ _ path').accepted_iff hdirect]
    by_cases hnumber : body = .number
    · subst hnumber
      rw [forall_keyFits_alias_iff ha hbody]
      by_cases hempty : members = []
      · subst hempty
        exact iff_of_true (iff_of_true rfl fun e he => absurd he List.not_mem_nil)
          fun _ => .inl rfl
      · rw [iff_false_left hempty]
        exact ⟨fun h _ => .inr h, fun h => (h rfl).resolve_left hempty⟩
    · refine iff_of_true (forall₂_congr fun e _ => and_congr_left' ?_) fun h => absurd h hnumber
      exact (keyFits_alias_iff ha hbody e.1).trans (and_iff_right hnumber)
  · intro members key hunion hmembers
    have haccepted : ∀ member ∈ members,
        (Accepted (checkKey (checkFrom types level') member key path') ↔
          KeyFits (Inhabits types) member key) :=
      fun member hm => (checkKey_decides level' member key path').accepted_iff (hmembers member hm)
    have hothers : (∃ member ∈ members, member ≠ .number ∧
          Accepted (checkKey (checkFrom types level') member key path')) ↔
        KeyFits (Inhabits types) (.union members) key := by
      rw [keyFits_union_iff]
      exact exists_congr fun member => and_congr_right fun hm =>
        and_congr_right fun _ => haccepted member hm
    rw [(checkKey_decides level _ key path).accepted_iff hunion, ← hothers]
    constructor
    · intro h hnumber hkey
      exact h.mpr ⟨.number, hnumber, (haccepted _ hnumber).mpr hkey⟩
    · refine fun h => ⟨?_, ?_⟩
      · rintro ⟨member, hm, -, hok⟩
        exact ⟨member, hm, hok⟩
      · rintro ⟨member, hm, hok⟩
        by_cases hnumber : member = .number
        · subst hnumber
          exact h hm ((haccepted _ hm).mp hok)
        · exact ⟨member, hm, hnumber, hok⟩

/-- An alias that stands for its argument, and one for the type of numbers. -/
def aliases : TypeTable where
  slots := [
    .defined (.alias { name := "Key", generics := ["T"], ty := .generic "T" }),
    .defined (.alias { name := "Number", ty := .number })]

theorem record_keys_compose_aliases :
    (Accepted (checkFrom aliases 0 (.record (.named 0 [.string]) .number)
        (.object [("a", .number (.integer 1))]) []) ↔
      Accepted (checkFrom aliases 0 (.record .string .number)
        (.object [("a", .number (.integer 1))]) [])) ∧
    (Accepted (checkKey (checkFrom aliases 0) (.union [.number, .string]) "1" []) ↔
      ∃ member ∈ [Ty.number, .string],
        Accepted (checkKey (checkFrom aliases 0) member "1" [])) := by
  obtain ⟨halias, hunion⟩ := record_keys_compose aliases 0 0 [] []
  have hobject : ∀ key, key = .named 0 [.string] ∨ key = .string →
      checkFrom aliases 0 (.record key .number) (.object [("a", .number (.integer 1))]) [] =
        .ok (.object [("a", .number (.integer 1))]) := by
    rintro key (rfl | rfl) <;> rfl
  constructor
  · refine (halias 0 [.string] _ .string .number _ rfl rfl ?_ ?_).mpr nofun
    · rw [hobject _ (.inl rfl)]
      exact decided_ok _
    · rw [hobject _ (.inr rfl)]
      exact decided_ok _
  · refine (hunion [.number, .string] "1" (decided_ok ()) ?_).mpr fun _ _ => ?_
    · rw [List.forall_mem_cons, List.forall_mem_singleton]
      exact ⟨decided_ok (), decided_ok ()⟩
    · exact ⟨.string, List.mem_cons_of_mem _ List.mem_cons_self, nofun, (), rfl⟩

/-- **Neither an alias nor a union hands on that its keys are numbers**: the key `1` is taken for
    the type of numbers, and refused for an alias of it and for a union with it. -/
theorem number_keys_end_at_names :
    (¬ ∀ (types : TypeTable) (target : DefId) (args : List Ty) (a : AliasDef) (body valueTy : Ty)
        (members : Entries Json) (level : Nat) (path : Path),
      types.get target = .ok (.alias a) → a.ty.substitute (Ty.bind a.generics args) = body →
      Decided (checkFrom types level (.record (.named target args) valueTy) (.object members)
        path) →
      Decided (checkFrom types level (.record body valueTy) (.object members) path) →
      (Accepted (checkFrom types level (.record (.named target args) valueTy) (.object members)
          path) ↔
        Accepted (checkFrom types level (.record body valueTy) (.object members) path))) ∧
    ¬ ∀ (types : TypeTable) (members : List Ty) (key : String) (level : Nat) (path : Path),
      Decided (checkKey (checkFrom types level) (.union members) key path) →
      (∀ member ∈ members, Decided (checkKey (checkFrom types level) member key path)) →
      (Accepted (checkKey (checkFrom types level) (.union members) key path) ↔
        ∃ member ∈ members, Accepted (checkKey (checkFrom types level) member key path)) := by
  constructor
  · intro h
    have hnamed : checkFrom aliases 0 (.record (.named 1 []) .string)
        (.object [("1", .string "a")]) [] = .error (.mismatch [.member "1"] .number) := rfl
    have hdirect : checkFrom aliases 0 (.record .number .string)
        (.object [("1", .string "a")]) [] = .ok (.object [("1", .string "a")]) := rfl
    have hiff := h aliases 1 [] _ .number .string [("1", .string "a")] 0 [] rfl rfl
    rw [hnamed, hdirect] at hiff
    refine not_accepted_error _ ((hiff (decided_mismatch rfl) (decided_ok _)).mpr ⟨_, rfl⟩)
  · intro h
    have hunion : checkKey (checkFrom {} 0) (.union [.number]) "1" [] =
        .error (.mismatch [] .unionMember) := rfl
    have hmembers : ∀ member ∈ [Ty.number],
        checkKey (checkFrom {} 0) member "1" [] = .ok () := List.forall_mem_singleton.mpr rfl
    have hiff := h {} [.number] "1" 0 []
    rw [hunion] at hiff
    have htaken := hmembers _ List.mem_cons_self
    refine not_accepted_error _ ((hiff (decided_mismatch rfl) fun member hm => ?_).mpr
      ⟨.number, List.mem_cons_self, (), htaken⟩)
    rw [hmembers member hm]
    exact decided_ok ()

end WireContract.Wire
