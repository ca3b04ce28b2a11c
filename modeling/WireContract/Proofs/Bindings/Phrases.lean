import WireContract.Proofs.Bindings.Tokens
import WireContract.Proofs.Type.Unfolding

/-!
# What the text of a type says

Some types are written alike: lists and tuples of any length with one element type, an optional type
and the union of the type with absence, and the type of null and the literal null. A phrase is what
such types have in common. The text of a type says which phrase it is, and no more.

* `Phrase`, `Ty.phrase`: phrases, and the phrase of a type;
* `Says`, `says_phrase`: which types have a phrase, kind by kind;
* `phrase_substitute`: the phrase of a type with arguments depends on the phrases of these only.
-/

namespace WireContract

open Bindings (Keyword)

/-- What a type expression says. -/
inductive Phrase where
  | keyword (k : Keyword)
  | parameter (name : String)
  /-- One of some values. -/
  | values (first : Json) (rest : List Json)
  | reference (target : DefId) (args : List Phrase)
  /-- Any number of items, all alike. -/
  | repeated (elem : Phrase)
  /-- One item for each place. -/
  | places (elems : List Phrase)
  | entries (key value : Phrase)
  | choice (first : Phrase) (rest : List Phrase)
  /-- What cannot be written. -/
  | nothing
  deriving Repr

namespace Phrase

/-- Induction on a phrase, with the hypothesis for everything directly inside it. -/
@[elab_as_elim]
theorem ind {motive : Phrase → Prop} (keyword : ∀ k, motive (.keyword k))
    (parameter : ∀ name, motive (.parameter name))
    (values : ∀ first rest, motive (.values first rest))
    (reference : ∀ target args, (∀ arg ∈ args, motive arg) → motive (.reference target args))
    (repeated : ∀ elem, motive elem → motive (.repeated elem))
    (places : ∀ elems, (∀ elem ∈ elems, motive elem) → motive (.places elems))
    (entries : ∀ key value, motive key → motive value → motive (.entries key value))
    (choice : ∀ first rest, motive first → (∀ p ∈ rest, motive p) → motive (.choice first rest))
    (nothing : motive .nothing) (p : Phrase) : motive p :=
  @Phrase.rec motive (fun ps => ∀ p ∈ ps, motive p)
    keyword parameter values reference repeated places entries choice nothing
    (fun _ h => absurd h List.not_mem_nil)
    (fun _ _ head tail => List.forall_mem_cons.mpr ⟨head, tail⟩)
    p

/-- A container out of the phrases of its elements. -/
def container (kind : ContainerKind) (variadic : Bool) (elems : List Phrase) : Phrase :=
  match kind, elems, variadic with
  | .array, [elem], _ => .repeated elem
  | .tuple, [elem], true => .repeated elem
  | .tuple, elems, false => .places elems
  | .record, [key, value], false => .entries key value
  | _, _, _ => .nothing

theorem container_tuple (elems : List Phrase) : container .tuple false elems = .places elems := by
  rcases elems with _ | ⟨first, _ | ⟨second, rest⟩⟩ <;> rfl

/-- A union out of the phrases of its members. -/
def union : List Phrase → Phrase
  | [] => .nothing
  | first :: rest => .choice first rest

/-- Values to choose from. -/
def literals : List Json → Phrase
  | [] => .nothing
  | first :: rest => .values first rest

end Phrase

namespace Ty

mutual

/-- What the text of a type says. -/
def phrase : Ty → Phrase
  | .primitive .null => .values .null []
  | .primitive .bool => .keyword .boolean
  | .primitive .number => .keyword .number
  | .primitive .string => .keyword .string
  | .any => .keyword .any
  | .absent => .keyword .undefined
  | .generic name => .parameter name
  | .named target args => .reference target (phrases args)
  | .container kind elems variadic => .container kind variadic (phrases elems)
  | .union members => .union (phrases members)
  | .literals values => .literals values
  | .optional inner => .choice (phrase inner) [.keyword .undefined]

def phrases : List Ty → List Phrase
  | [] => []
  | ty :: rest => phrase ty :: phrases rest

end

theorem phrases_eq_map (tys : List Ty) : phrases tys = tys.map phrase := by
  induction tys with
  | nil => rfl
  | cons ty rest ih => rw [phrases, ih, List.map_cons]

/-! ## Types with one phrase -/

/-- Whether a type cannot be written, whatever is inside it. -/
inductive IsUnwritable : Ty → Prop where
  | union : IsUnwritable (.union [])
  | literals : IsUnwritable (.literals [])
  | container (kind : ContainerKind) (elems : List Ty) (variadic : Bool)
      (h : ¬ kind.Admits elems.length variadic) : IsUnwritable (.container kind elems variadic)

/-- The types that have a phrase, kind by kind. -/
inductive Says : Ty → Phrase → Prop where
  | null : Says .null (.values .null [])
  | bool : Says .bool (.keyword .boolean)
  | number : Says .number (.keyword .number)
  | string : Says .string (.keyword .string)
  | any : Says .any (.keyword .any)
  | absent : Says .absent (.keyword .undefined)
  | generic (name : String) : Says (.generic name) (.parameter name)
  | named (target : DefId) (args : List Ty) (ps : List Phrase) (h : args.map phrase = ps) :
      Says (.named target args) (.reference target ps)
  | array (elem : Ty) (variadic : Bool) (p : Phrase) (h : elem.phrase = p) :
      Says (.container .array [elem] variadic) (.repeated p)
  | variadic (elem : Ty) (p : Phrase) (h : elem.phrase = p) : Says (.variadic elem) (.repeated p)
  | tuple (elems : List Ty) (ps : List Phrase) (h : elems.map phrase = ps) :
      Says (.tuple elems) (.places ps)
  | record (key value : Ty) (p q : Phrase) (hkey : key.phrase = p) (hvalue : value.phrase = q) :
      Says (.record key value) (.entries p q)
  | union (first : Ty) (rest : List Ty) (p : Phrase) (ps : List Phrase) (hfirst : first.phrase = p)
      (hrest : rest.map phrase = ps) : Says (.union (first :: rest)) (.choice p ps)
  | literals (first : Json) (rest : List Json) :
      Says (.literals (first :: rest)) (.values first rest)
  | optional (inner : Ty) (p : Phrase) (h : inner.phrase = p) :
      Says (.optional inner) (.choice p [.keyword .undefined])
  | nothing (ty : Ty) (h : ty.IsUnwritable) : Says ty .nothing

theorem says_container {kind : ContainerKind} {elems : List Ty} {variadic : Bool} :
    Says (.container kind elems variadic) (.container kind variadic (elems.map phrase)) := by
  by_cases hfits : kind.Admits elems.length variadic
  · cases hfits.form with
    | array elem => exact .array elem variadic _ rfl
    | variadic elem => exact .variadic elem _ rfl
    | tuple =>
      rw [Phrase.container_tuple]
      exact .tuple elems _ rfl
    | record key value => exact .record key value _ _ rfl rfl
  · have hnothing : Phrase.container kind variadic (elems.map phrase) = .nothing := by
      rcases elems with _ | ⟨first, _ | ⟨second, _ | ⟨third, rest⟩⟩⟩ <;> cases kind <;>
        cases variadic <;> first | rfl | exact absurd (by simp [ContainerKind.Admits]) hfits
    rw [hnothing]
    exact .nothing _ (.container kind elems variadic hfits)

/-- **Every type is one of those that have its phrase.** -/
theorem says_phrase (ty : Ty) : Says ty ty.phrase := by
  cases ty with
  | primitive kind =>
    cases kind with
    | null => exact .null
    | bool => exact .bool
    | number => exact .number
    | string => exact .string
  | any => exact .any
  | absent => exact .absent
  | generic name => exact .generic name
  | named target args =>
    rw [phrase, phrases_eq_map]
    exact .named target args _ rfl
  | container kind elems variadic =>
    rw [phrase, phrases_eq_map]
    exact says_container
  | union members =>
    rw [phrase, phrases_eq_map]
    cases members with
    | nil => exact .nothing _ .union
    | cons first rest => exact .union first rest _ _ rfl rfl
  | literals values =>
    cases values with
    | nil => exact .nothing _ .literals
    | cons first rest => exact .literals first rest
  | optional inner =>
    rw [phrase]
    exact .optional inner _ rfl

/-! ## Substitution -/

theorem map_phrase_substitute {b b' : Bindings} {tys : List Ty}
    (ih : ∀ ty ∈ tys, (ty.substitute b).phrase = (ty.substitute b').phrase) :
    (tys.map (substitute b)).map phrase = (tys.map (substitute b')).map phrase := by
  rw [List.map_map, List.map_map]
  exact List.map_congr_left ih

/-- **Arguments with the same phrases give types with one phrase.** -/
theorem phrase_substitute {b b' : Bindings}
    (h : ∀ name, (b.get? name).map phrase = (b'.get? name).map phrase) (ty : Ty) :
    (ty.substitute b).phrase = (ty.substitute b').phrase := by
  induction ty using Ty.ind with
  | generic name =>
    have hname := h name
    rw [substitute, substitute]
    cases hb : b.get? name with
    | none =>
      rw [hb] at hname
      rw [Option.map_eq_none_iff.mp hname.symm]
    | some bound =>
      rw [hb] at hname
      obtain ⟨bound', hb', hphrase⟩ := Option.map_eq_some_iff.mp hname.symm
      rw [hb', Option.getD_some, Option.getD_some, hphrase]
  | named target args ih =>
    rw [substitute_named, substitute_named, phrase, phrase, phrases_eq_map, phrases_eq_map,
      map_phrase_substitute ih]
  | container kind elems variadic ih =>
    rw [substitute_container, substitute_container, phrase, phrase, phrases_eq_map,
      phrases_eq_map, map_phrase_substitute ih]
  | union members ih =>
    rw [substitute_union, substitute_union, phrase, phrase, phrases_eq_map, phrases_eq_map,
      map_phrase_substitute ih]
  | optional inner ih => rw [substitute, substitute, phrase, phrase, ih]
  | _ => rfl

/-- Arguments with the same phrases are bound to the same parameters. -/
theorem map_phrase_bind {args args' : List Ty} (h : args.map phrase = args'.map phrase)
    (generics : List String) (name : String) :
    ((bind generics args).get? name).map phrase =
      ((bind generics args').get? name).map phrase := by
  have hbind : ∀ args : List Ty, (bind generics args).map (fun e => (e.1, e.2.phrase)) =
      (generics.zip (args.map phrase)).reverse := fun args => by
    rw [bind, List.zip_map_right, List.map_reverse]
    rfl
  rw [← get?_map, ← get?_map, hbind, hbind, h]

end Ty

end WireContract
