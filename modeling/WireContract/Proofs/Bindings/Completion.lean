import WireContract.Bindings.Declaration
import WireContract.Proofs.Bindings.Reach
import WireContract.Proofs.Type.Soundness

/-!
# When a draft comes to its end, and what it mentions then

Drafts are put together from few pieces, and of each it can be said under which condition it comes
to its end and which definitions it mentions if it does. Both are said at once (`Completes`), so
that the text of an expression, of a declaration and of a wrapper is taken apart only once.

* `Completes`: the condition of a draft and its mentions; `append` and its neighbours follow the
  ways in which drafts are put together;
* `typeText_completes`: an expression is written to its end exactly if it is sound, and mentions
  what the expression mentions;
* `declarationText_completes`, `wrapperText_completes`: the same for the two kinds of blocks.
-/

namespace WireContract.Bindings

open Draft

namespace Draft

/-- A draft comes to its end exactly under a condition, and then mentions these definitions. -/
structure Completes (d : Draft) (p : Prop) (ids : List DefId) : Prop where
  fault_iff : d.fault = none ↔ p
  mentions : p → d.mentions = ids

namespace Completes

variable {a b d : Draft} {p q : Prop} {xs ys : List DefId}

theorem congr (h : Completes d p xs) (hpq : p ↔ q) (hxs : q → xs = ys) : Completes d q ys where
  fault_iff := h.fault_iff.trans hpq
  mentions hq := (h.mentions (hpq.mpr hq)).trans (hxs hq)

theorem empty : Completes Draft.empty True [] := ⟨iff_of_true rfl trivial, fun _ => rfl⟩

theorem write (text : String) : Completes (write text) True [] :=
  ⟨iff_of_true rfl trivial, fun _ => rfl⟩

theorem mention (id : DefId) : Completes (mention id) True [id] :=
  ⟨iff_of_true rfl trivial, fun _ => rfl⟩

theorem fail (fault : SchemaFault) (hp : ¬ p) : Completes (fail fault) p xs :=
  ⟨iff_of_false (fun h => by cases h) hp, fun h => absurd h hp⟩

theorem append (ha : Completes a p xs) (hb : Completes b q ys) :
    Completes (a ++ b) (p ∧ q) (xs ++ ys) := by
  cases hf : a.fault with
  | some fault =>
    have hp : ¬ p := fun h => by simp [ha.fault_iff.mpr h] at hf
    rw [append_of_fault a b fault hf]
    exact ⟨by simp [hf, hp], fun h => absurd h.1 hp⟩
  | none =>
    have hp : p := ha.fault_iff.mp hf
    have hab : a ++ b =
        { text := a.text ++ b.text, mentions := a.mentions ++ b.mentions, fault := b.fault } := by
      rw [append_def, Draft.append, hf]
    rw [hab]
    refine ⟨hb.fault_iff.trans (and_iff_right hp).symm, fun h => ?_⟩
    rw [← ha.mentions h.1, ← hb.mentions h.2]

/-- Text in front changes neither the condition nor the mentions. -/
theorem write_append (text : String) (h : Completes d p xs) : Completes (.write text ++ d) p xs :=
  ((write text).append h).congr (and_iff_right trivial) fun _ => rfl

/-- Text behind changes neither the condition nor the mentions. -/
theorem append_write (h : Completes d p xs) (text : String) : Completes (d ++ .write text) p xs :=
  (h.append (write text)).congr (and_iff_left trivial) fun _ => List.append_nil xs

section Lists

variable {α : Type} {f : α → Draft} {ok : α → Prop} {ids : α → List DefId} {items : List α}

theorem separated (separator : String) (h : ∀ a ∈ items, Completes (f a) (ok a) (ids a)) :
    Completes (separated separator (items.map f)) (∀ a ∈ items, ok a) (items.flatMap ids) := by
  induction items with
  | nil => exact empty.congr (by simp) fun _ => rfl
  | cons a rest ih =>
    rw [List.forall_mem_cons] at h
    rw [List.map_cons, Draft.separated, List.flatMap_cons]
    exact ((h.1.write_append separator).append (ih h.2)).congr List.forall_mem_cons.symm
      fun _ => rfl

theorem joined (separator : String) (h : ∀ a ∈ items, Completes (f a) (ok a) (ids a)) :
    Completes (joined separator (items.map f)) (∀ a ∈ items, ok a) (items.flatMap ids) := by
  cases items with
  | nil => exact empty.congr (by simp) fun _ => rfl
  | cons a rest =>
    rw [List.forall_mem_cons] at h
    rw [List.map_cons, Draft.joined, List.flatMap_cons]
    exact (h.1.append (separated separator h.2)).congr List.forall_mem_cons.symm fun _ => rfl

theorem concat (h : ∀ a ∈ items, Completes (f a) (ok a) (ids a)) :
    Completes (concat (items.map f)) (∀ a ∈ items, ok a) (items.flatMap ids) := by
  induction items with
  | nil => exact empty.congr (by simp) fun _ => rfl
  | cons a rest ih =>
    rw [List.forall_mem_cons] at h
    rw [List.map_cons, Draft.concat, List.flatMap_cons]
    exact (h.1.append (ih h.2)).congr List.forall_mem_cons.symm fun _ => rfl

end Lists

end Completes

theorem literal_completes (v : Json) : Completes (literal v) v.IsScalar [] := by
  cases v with
  | array items => exact .fail _ id
  | object members => exact .fail _ id
  | _ => exact .write _

theorem comment_completes (doc : Option String) (indent : String) :
    Completes (comment doc indent) True [] := by
  cases doc with
  | none => exact .empty
  | some doc => exact .write _

end Draft

/-! ## 1. Expressions -/

section Expressions

variable {types : TypeTable}

/-- An expression with nothing inside it that is written as one word. -/
theorem atom_completes (text : String) {ty : Ty} (hparts : ty.parts = [ty])
    (hfits : ty.FitsTable types) (hmentions : ty.mentions = []) :
    Completes (write text) (ty.IsSound types) ty.mentions :=
  (Completes.write text).congr (iff_of_true trivial ((Ty.isSound_atom_iff hparts).mpr hfits))
    fun _ => hmentions.symm

theorem bracketed_completes {d : Draft} {p : Prop} {ids : List DefId} (h : Completes d p ids) :
    Completes (bracketed d) p ids :=
  (h.write_append "(").append_write ")"

theorem containerText_tuple (elems : List Draft) (ty : Ty) :
    containerText .tuple false elems ty = write "[" ++ joined ", " elems ++ write "]" := by
  rcases elems with _ | ⟨first, _ | ⟨second, rest⟩⟩ <;> rfl

section Containers

variable {ok : Ty → Prop} {elems : List Ty} {f : Ty → Draft}

/-- Lists of one element type: an array, or a tuple whose last element repeats. -/
theorem repeated_completes (h : ∀ elem ∈ elems, Completes (f elem) (ok elem) elem.mentions)
    {d : Draft} (hone : ∀ elem, elems = [elem] → d = write "(" ++ f elem ++ write ")[]")
    (hfail : elems.length ≠ 1 → ∃ fault, d = fail fault) :
    Completes d (elems.length = 1 ∧ ∀ elem ∈ elems, ok elem) (elems.flatMap Ty.mentions) := by
  by_cases hlen : elems.length = 1
  · obtain ⟨elem, rfl⟩ := List.length_eq_one_iff.mp hlen
    rw [List.forall_mem_singleton] at h
    rw [hone elem rfl, List.forall_mem_singleton, List.flatMap_singleton]
    exact ((h.write_append "(").append_write ")[]").congr (and_iff_right hlen).symm fun _ => rfl
  · obtain ⟨fault, rfl⟩ := hfail hlen
    exact .fail fault fun hp => hlen hp.1

theorem containerText_completes
    (h : ∀ elem ∈ elems, Completes (f elem) (ok elem) elem.mentions) (kind : ContainerKind)
    (variadic : Bool) (ty : Ty) :
    Completes (containerText kind variadic (elems.map f) ty)
      (kind.Admits elems.length variadic ∧ ∀ elem ∈ elems, ok elem)
      (elems.flatMap Ty.mentions) := by
  cases kind with
  | array =>
    refine repeated_completes h (fun elem he => by rw [he]; rfl) fun hlen => ?_
    rcases elems with _ | ⟨first, _ | ⟨second, rest⟩⟩
    · exact ⟨_, rfl⟩
    · exact absurd rfl hlen
    · exact ⟨_, rfl⟩
  | tuple =>
    cases variadic with
    | true =>
      refine repeated_completes h (fun elem he => by rw [he]; rfl) fun hlen => ?_
      rcases elems with _ | ⟨first, _ | ⟨second, rest⟩⟩
      · exact ⟨_, rfl⟩
      · exact absurd rfl hlen
      · exact ⟨_, rfl⟩
    | false =>
      rw [containerText_tuple]
      exact (((Completes.joined ", " h).write_append "[").append_write "]").congr
        (and_iff_right trivial).symm fun _ => rfl
  | record =>
    rcases elems with _ | ⟨key, _ | ⟨value, _ | ⟨third, rest⟩⟩⟩
    · exact .fail _ fun hp => absurd hp.1.1 (by simp)
    · exact .fail _ fun hp => absurd hp.1.1 (by simp)
    · cases variadic with
      | true => exact .fail _ fun hp => absurd hp.1.2 (by simp)
      | false =>
        have hkey := h key List.mem_cons_self
        have hvalue := h value (List.mem_cons_of_mem _ List.mem_cons_self)
        refine ((((hkey.write_append "Record<").append_write ", ").append hvalue).append_write
          ">").congr ?_ fun _ => by simp
        rw [List.forall_mem_cons, List.forall_mem_singleton]
        exact (and_iff_right ⟨rfl, rfl⟩).symm
    · exact .fail _ fun hp => absurd hp.1.1 (by simp)

end Containers

theorem referenceText_completes {ok : Ty → Prop} {args : List Ty} {f : Ty → Draft}
    (h : ∀ arg ∈ args, Completes (f arg) (ok arg) arg.mentions) (target : DefId) :
    Completes (referenceText types target (args.map f))
      ((∃ body, types.get target = .ok body ∧ args.length = body.generics.length) ∧
        ∀ arg ∈ args, ok arg)
      (target :: args.flatMap Ty.mentions) := by
  unfold referenceText
  split
  · rename_i fault hget
    refine .fail fault ?_
    intro h
    rcases h with ⟨⟨body, hbody, -⟩, -⟩
    simp [hget] at hbody
  · rename_i body hget
    have hbody : (∃ body, types.get target = .ok body ∧ args.length = body.generics.length) ↔
        args.length = body.generics.length := by simp [hget]
    rw [hbody, List.length_map]
    split
    · rename_i hlen
      exact .fail _ fun h => hlen h.1.symm
    · rename_i hlen
      have hargs : Completes (if (args.map f).isEmpty then empty
          else write "<" ++ joined ", " (args.map f) ++ write ">")
          (∀ arg ∈ args, ok arg) (args.flatMap Ty.mentions) := by
        split
        · rename_i hempty
          obtain rfl : args = [] := by simpa using hempty
          exact Completes.empty.congr (by simp) fun _ => rfl
        · exact ((Completes.joined ", " h).write_append "<").append_write ">"
      refine ((((Completes.mention target).append_write body.name).append hargs).congr ?_ ?_)
      · exact and_congr_left' (iff_of_true trivial (Classical.not_not.mp hlen).symm)
      · exact fun _ => rfl

/-- **An expression is written to its end exactly if it is sound**, and mentions what the
    expression mentions, in the same order. -/
theorem typeText_completes (types : TypeTable) (ty : Ty) :
    Completes (typeText types ty) (ty.IsSound types) ty.mentions := by
  induction ty using Ty.ind with
  | primitive kind =>
    cases kind <;> exact atom_completes _ rfl trivial rfl
  | named target args ih =>
    rw [typeText, typeTexts_eq_map, Ty.mentions_named]
    exact (referenceText_completes ih target).congr Ty.isSound_named_iff.symm fun _ => rfl
  | generic name => exact atom_completes _ rfl trivial rfl
  | container kind elems variadic ih =>
    rw [typeText, typeTexts_eq_map, Ty.mentions_container]
    exact (containerText_completes ih kind variadic _).congr Ty.isSound_container_iff.symm
      fun _ => rfl
  | union members ih =>
    cases members with
    | nil => exact .fail _ fun h => (Ty.isSound_union_iff.mp h).1 rfl
    | cons first rest =>
      have hall := Completes.joined "|" fun member hm => bracketed_completes (ih member hm)
      rw [typeText, typeTexts_eq_map, List.map_map, Ty.mentions_union]
      refine (bracketed_completes hall).congr ?_ fun _ => rfl
      rw [Ty.isSound_union_iff, and_iff_right (List.cons_ne_nil first rest)]
  | literals values =>
    rw [Ty.isSound_atom_iff rfl]
    cases values with
    | nil => exact .fail _ fun h => h.1 rfl
    | cons first rest =>
      have hall := Completes.joined "|" fun v (_ : v ∈ first :: rest) => literal_completes v
      refine hall.congr (and_iff_right (List.cons_ne_nil first rest)).symm fun _ => ?_
      rw [Ty.mentions_literals, List.flatMap_eq_nil_iff]
      exact fun _ _ => rfl
  | optional inner ih =>
    rw [typeText, Ty.mentions_optional]
    exact ((ih.write_append "((").append_write ")|(undefined))").congr
      Ty.isSound_optional_iff.symm fun _ => rfl
  | absent => exact atom_completes _ rfl trivial rfl
  | any => exact atom_completes _ rfl trivial rfl

end Expressions

/-! ## 2. Declarations -/

section Declarations

variable {types : TypeTable} {indentation : String}

theorem fieldText_completes (types : TypeTable) (f : Field) :
    Completes (fieldText types f) (f.shape.1.IsSound types) f.shape.1.mentions := by
  have hty := typeText_completes types f.shape.1
  exact (((Completes.write _).append_write _).append hty).append_write ";" |>.congr
    (and_iff_right trivial) fun _ => rfl

theorem interfaceText_completes (s : StructDef) :
    Completes (interfaceText types indentation s)
      (∀ f ∈ s.fields, f.shape.1.IsSound types) (s.fields.flatMap fun f => f.shape.1.mentions) := by
  have hline : ∀ f ∈ s.fields, Completes (interfaceLine types indentation f)
      (f.shape.1.IsSound types) f.shape.1.mentions :=
    fun f _ => ((fieldText_completes types f).write_append indentation).append_write "\n"
  have hbody : Completes
      (if s.fields.isEmpty then write " \x7b\x7d\n"
       else write " \x7b\n" ++ concat (s.fields.map (interfaceLine types indentation)) ++
         write "\x7d\n")
      (∀ f ∈ s.fields, f.shape.1.IsSound types)
      (s.fields.flatMap fun f => f.shape.1.mentions) := by
    split
    · rename_i hempty
      rw [List.isEmpty_iff.mp hempty]
      exact (Completes.write _).congr (by simp) fun _ => rfl
    · exact ((Completes.concat hline).write_append _).append_write _
  exact (((comment_completes s.doc "").append_write _).append hbody).congr
    (and_iff_right trivial) fun _ => rfl

theorem enumerationText_completes (e : EnumDef) :
    Completes (enumerationText indentation e) (∀ m ∈ e.members, m.value.IsScalar) [] := by
  have hline : ∀ m ∈ e.members, Completes (enumerationLine indentation m) m.value.IsScalar [] :=
    fun m _ => ((literal_completes m.value).write_append _).append_write _
  refine ((((comment_completes e.doc "").append_write _).append
    (Completes.concat hline)).append_write _).congr (and_iff_right trivial) fun _ => ?_
  exact List.flatMap_eq_nil_iff.mpr fun _ _ => rfl

theorem aliasText_completes (a : AliasDef) :
    Completes (aliasText types a) (a.ty.IsSound types) a.ty.mentions :=
  ((typeText_completes types a.ty).write_append _).append_write _

/-- What is no alias leads nowhere, so that it is on no cycle. -/
theorem aliasCycle_of_not_alias {id : DefId} {body : Definition} (hb : types.get id = .ok body)
    (hbody : ∀ a, body ≠ .alias a) : types.aliasCycle id = .ok none := by
  have hwalk : types.walkAlias id (types.size + 1) id [] = .ok (none, []) := by
    unfold TypeTable.walkAlias
    rw [hb]
    cases body with
    | «alias» a => exact absurd rfl (hbody a)
    | _ => rfl
  simp only [TypeTable.aliasCycle, hwalk]
  rfl

/-- **A declaration is written to its end exactly if the definition is there, its body is sound,
    and it is on no cycle of aliases.** -/
theorem declarationText_completes (types : TypeTable) (indentation : String) (id : DefId) :
    Completes (declarationText types indentation id)
      ((∃ body, types.get id = .ok body ∧ body.IsSound types) ∧ types.aliasCycle id = .ok none)
      (types.mentionsOf id) := by
  unfold declarationText
  cases hb : types.get id with
  | error fault => exact .fail fault (by simp)
  | ok body =>
    have hsound : (∃ b, (.ok body : Except SchemaFault Definition) = .ok b ∧ b.IsSound types) ↔
        body.IsSound types := by simp
    rw [TypeTable.mentionsOf_of_get hb, hsound]
    cases body with
    | struct s =>
      rw [aliasCycle_of_not_alias hb (by simp), Definition.isSound_struct_iff]
      exact (interfaceText_completes s).congr (and_iff_left rfl).symm
        fun _ => (List.flatMap_map ..).symm
    | enumeration e =>
      rw [aliasCycle_of_not_alias hb (by simp), Definition.isSound_enumeration_iff]
      exact (enumerationText_completes e).congr (and_iff_left rfl).symm fun _ => rfl
    | «alias» a =>
      rw [Definition.isSound_alias_iff]
      cases hcycle : types.aliasCycle id with
      | error fault => exact .fail fault (by simp)
      | ok names =>
        cases names with
        | some names => exact .fail _ (by simp)
        | none =>
          exact (aliasText_completes a).congr (and_iff_left rfl).symm
            fun _ => (List.flatMap_singleton ..).symm

end Declarations

/-! ## 3. Wrappers -/

/-- **A wrapper is written to its end exactly if the parameters are a struct and its expressions
    are sound.** -/
theorem wrapperText_completes (types : TypeTable) (options : Options) (m : Method) :
    Completes (wrapperText types options m)
      ((∃ s, types.get m.params = .ok (.struct s)) ∧ ∀ ty ∈ m.expressions, ty.IsSound types)
      m.mentions := by
  have hbody : ∀ omissible, Completes (wrapperBody types options m omissible)
      (∀ ty ∈ m.expressions, ty.IsSound types) m.mentions := by
    intro omissible
    have hparams := typeText_completes types (.reference m.params)
    have hreturns := typeText_completes types m.returns
    have hname : Completes (literal (.string m.name)) True [] := .write _
    refine (((((((((comment_completes m.doc "").append_write _).append hparams).append_write
      _).append_write _).append hreturns).append_write _).append_write _).append
      hname).append_write _ |>.congr ?_ fun _ => ?_
    · simp [Method.expressions]
    · simp [Method.mentions, Ty.reference]
  unfold wrapperText
  split
  · rename_i fault hget
    exact .fail fault (by simp [hget])
  · rename_i s hget
    exact (hbody _).congr (and_iff_right ⟨s, hget⟩).symm fun _ => rfl
  · rename_i other hother hget
    refine .fail _ ?_
    intro h
    rcases h with ⟨⟨s, hs⟩, -⟩
    rw [hget] at hs
    exact hother s (Except.ok.inj hs)

end WireContract.Bindings
