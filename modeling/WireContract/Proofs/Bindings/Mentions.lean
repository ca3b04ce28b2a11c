import WireContract.Bindings.Declaration
import WireContract.Proofs.Type.Expressions

/-!
# What a draft mentions is there

A reference is looked up before it is mentioned, and a type argument is mentioned by the definitions
that it names and not by what comes out of them. So every draft mentions definitions of the table
only, also one that ends in a fault: what it mentioned up to the fault is there.

* `Draft.MentionsOnly`: what a draft mentions has a property; `append` and its neighbours follow the
  ways in which drafts are put together;
* `typeText_mentions`: what the text of an expression mentions is there;
* `declarationText_mentions`, `wrapperText_mentions`: the same for the two kinds of blocks.
-/

namespace WireContract.Bindings

open Draft

/-- Whether a number is that of a definition. -/
def IsThere (types : TypeTable) (id : DefId) : Prop := ∃ body, types.get id = .ok body

namespace Draft

/-- Whether all that a draft mentions has a property, whether or not the draft comes to its end. -/
def MentionsOnly (p : DefId → Prop) (d : Draft) : Prop := ∀ id ∈ d.mentions, p id

namespace MentionsOnly

variable {p : DefId → Prop} {a b : Draft} {ds : List Draft}

/-- A draft without mentions. -/
theorem of_nil {d : Draft} (h : d.mentions = []) : MentionsOnly p d := by
  rw [MentionsOnly, h]
  exact fun id hid => absurd hid List.not_mem_nil

theorem write (text : String) : MentionsOnly p (write text) := of_nil rfl

theorem fail (fault : SchemaFault) : MentionsOnly p (fail fault) := of_nil rfl

theorem mention {id : DefId} (h : p id) : MentionsOnly p (mention id) :=
  List.forall_mem_singleton.mpr h

/-- Behind a fault nothing is mentioned. -/
theorem append (ha : MentionsOnly p a) (hb : MentionsOnly p b) : MentionsOnly p (a ++ b) := by
  cases hf : a.fault with
  | some fault => rwa [append_of_fault a b fault hf]
  | none =>
    have hmentions : (a ++ b).mentions = a.mentions ++ b.mentions := by
      rw [append_def, Draft.append, hf]
    rw [MentionsOnly, hmentions]
    exact List.forall_mem_append.mpr ⟨ha, hb⟩

theorem write_append (text : String) (h : MentionsOnly p a) : MentionsOnly p (.write text ++ a) :=
  (write text).append h

theorem append_write (h : MentionsOnly p a) (text : String) : MentionsOnly p (a ++ .write text) :=
  h.append (write text)

theorem separated (separator : String) (h : ∀ d ∈ ds, MentionsOnly p d) :
    MentionsOnly p (separated separator ds) := by
  induction ds with
  | nil => exact of_nil rfl
  | cons d rest ih =>
    rw [List.forall_mem_cons] at h
    exact (h.1.write_append separator).append (ih h.2)

theorem joined (separator : String) (h : ∀ d ∈ ds, MentionsOnly p d) :
    MentionsOnly p (joined separator ds) := by
  cases ds with
  | nil => exact of_nil rfl
  | cons d rest =>
    rw [List.forall_mem_cons] at h
    exact h.1.append (separated separator h.2)

theorem concat (h : ∀ d ∈ ds, MentionsOnly p d) : MentionsOnly p (concat ds) := by
  induction ds with
  | nil => exact of_nil rfl
  | cons d rest ih =>
    rw [List.forall_mem_cons] at h
    exact h.1.append (ih h.2)

theorem bracketed (h : MentionsOnly p a) : MentionsOnly p (bracketed a) :=
  (h.write_append "(").append_write ")"

theorem literal (v : Json) : MentionsOnly p (literal v) := by
  cases v <;> exact of_nil rfl

theorem comment (doc : Option String) (indent : String) : MentionsOnly p (comment doc indent) := by
  cases doc <;> exact of_nil rfl

end MentionsOnly

end Draft

section Blocks

variable {types : TypeTable}

/-! ## 1. Expressions -/

theorem containerText_mentions {p : DefId → Prop} {elems : List Draft}
    (h : ∀ d ∈ elems, MentionsOnly p d) (kind : ContainerKind) (variadic : Bool) (ty : Ty) :
    MentionsOnly p (containerText kind variadic elems ty) := by
  unfold containerText
  split
  · exact ((h _ List.mem_cons_self).write_append _).append_write _
  · exact ((h _ List.mem_cons_self).write_append _).append_write _
  · exact ((MentionsOnly.joined _ h).write_append _).append_write _
  · rename_i key value
    have hkey := h key List.mem_cons_self
    have hvalue := h value (List.mem_cons_of_mem _ List.mem_cons_self)
    exact (((hkey.write_append _).append_write _).append hvalue).append_write _
  · exact .fail _

/-- **A reference is mentioned only if it leads to a definition**, and arguments are mentioned as
    they are written. -/
theorem referenceText_mentions {args : List Draft}
    (h : ∀ d ∈ args, MentionsOnly (IsThere types) d) (target : DefId) :
    MentionsOnly (IsThere types) (referenceText types target args) := by
  unfold referenceText
  split
  · exact .fail _
  · rename_i body hbody
    split
    · exact .fail _
    · refine ((MentionsOnly.mention ⟨body, hbody⟩).append_write _).append ?_
      split
      · exact .of_nil rfl
      · exact ((MentionsOnly.joined _ h).write_append _).append_write _

/-- **What the text of an expression mentions is there.** -/
theorem typeText_mentions (types : TypeTable) (ty : Ty) :
    MentionsOnly (IsThere types) (typeText types ty) := by
  have hall : ∀ tys : List Ty, (∀ ty ∈ tys, MentionsOnly (IsThere types) (typeText types ty)) →
      ∀ d ∈ typeTexts types tys, MentionsOnly (IsThere types) d := by
    intro tys htys
    rw [typeTexts_eq_map]
    exact List.forall_mem_map.mpr htys
  induction ty using Ty.ind with
  | primitive kind => cases kind <;> exact .of_nil rfl
  | named target args ih => exact referenceText_mentions (hall args ih) target
  | generic name => exact .of_nil rfl
  | container kind elems variadic ih => exact containerText_mentions (hall elems ih) kind variadic _
  | union members ih =>
    cases members with
    | nil => exact .fail _
    | cons first rest =>
      rw [List.forall_mem_cons] at ih
      refine .bracketed (.joined _ (List.forall_mem_cons.mpr ⟨.bracketed ih.1, ?_⟩))
      exact List.forall_mem_map.mpr fun d hd => .bracketed (hall rest ih.2 d hd)
  | literals values =>
    cases values with
    | nil => exact .fail _
    | cons first rest =>
      refine .joined _ (List.forall_mem_cons.mpr ⟨.literal first, ?_⟩)
      exact List.forall_mem_map.mpr fun v _ => .literal v
  | optional inner ih => exact (ih.write_append _).append_write _
  | absent => exact .of_nil rfl
  | any => exact .of_nil rfl

/-! ## 2. Blocks -/

theorem fieldText_mentions (types : TypeTable) (f : Field) :
    MentionsOnly (IsThere types) (fieldText types f) :=
  (((MentionsOnly.write _).append_write _).append (typeText_mentions types _)).append_write _

theorem interfaceText_mentions (types : TypeTable) (indentation : String) (s : StructDef) :
    MentionsOnly (IsThere types) (interfaceText types indentation s) := by
  refine ((MentionsOnly.comment _ _).append_write _).append ?_
  split
  · exact .write _
  · refine ((MentionsOnly.concat ?_).write_append _).append_write _
    exact List.forall_mem_map.mpr fun f _ =>
      ((fieldText_mentions types f).write_append _).append_write _

theorem enumerationText_mentions (indentation : String) (e : EnumDef) :
    MentionsOnly (IsThere types) (enumerationText indentation e) := by
  refine (((MentionsOnly.comment _ _).append_write _).append (.concat ?_)).append_write _
  exact List.forall_mem_map.mpr fun m _ =>
    ((MentionsOnly.literal m.value).write_append _).append_write _

/-- **What a declaration mentions is there.** -/
theorem declarationText_mentions (types : TypeTable) (indentation : String) (id : DefId) :
    MentionsOnly (IsThere types) (declarationText types indentation id) := by
  unfold declarationText
  split
  · exact .fail _
  · exact interfaceText_mentions types indentation _
  · exact enumerationText_mentions indentation _
  · split
    · exact .fail _
    · exact .fail _
    · exact ((typeText_mentions types _).write_append _).append_write _

/-- **What a wrapper mentions is there.** -/
theorem wrapperText_mentions (types : TypeTable) (options : Options) (m : Method) :
    MentionsOnly (IsThere types) (wrapperText types options m) := by
  have hbody : ∀ omissible,
      MentionsOnly (IsThere types) (wrapperBody types options m omissible) := by
    intro omissible
    have hparams := typeText_mentions types (.reference m.params)
    have hreturns := typeText_mentions types m.returns
    exact ((((((((MentionsOnly.comment m.doc "").append_write _).append hparams).append_write
      _).append_write _).append hreturns).append_write _).append_write _).append
      (.literal _) |>.append_write _
  unfold wrapperText
  split
  · exact .fail _
  · exact hbody _
  · exact .fail _

end Blocks

end WireContract.Bindings
