import WireContract.Json.Printer
import WireContract.Proofs.Type.Expressions
import WireContract.Proofs.Type.Naming

/-!
# The tokens of a type expression

A type expression is written as a row of tokens: punctuation, words, values, type parameters and
references. The row depends on the expression alone. The table only decides what a reference is
called.

* `Token.text`: how a token is written;
* `typeTokens`: the tokens of an expression;
* `standsIn_of_mem_typeTokens`: every token comes from a part of the expression.
-/

namespace WireContract.Bindings

/-! ## 1. Tokens -/

/-- The punctuation of type expressions. -/
inductive Mark where
  | roundOpen
  | roundClose
  | squareOpen
  | squareClose
  | angleOpen
  | angleClose
  | comma
  | bar
  deriving DecidableEq, Repr

def Mark.text : Mark → String
  | .roundOpen => "("
  | .roundClose => ")"
  | .squareOpen => "["
  | .squareClose => "]"
  | .angleOpen => "<"
  | .angleClose => ">"
  | .comma => ", "
  | .bar => "|"

/-- The words of type expressions that name no definition, no parameter and no value. -/
inductive Keyword where
  | boolean
  | number
  | string
  | any
  | undefined
  | record
  deriving DecidableEq, Repr

def Keyword.text : Keyword → String
  | .boolean => "boolean"
  | .number => "number"
  | .string => "string"
  | .any => "any"
  | .undefined => "undefined"
  | .record => "Record"

/-- A token of a type expression. A reference is one to a definition with a number of arguments;
    the type of null is its only value. -/
inductive Token where
  | mark (m : Mark)
  | keyword (k : Keyword)
  | literal (v : Json)
  | parameter (name : String)
  | reference (target : DefId) (count : Nat)
  deriving Repr

/-- How a token is written. -/
def Token.text (types : TypeTable) : Token → String
  | .mark m => m.text
  | .keyword k => k.text
  | .literal v => v.render
  | .parameter name => name
  | .reference target _ => types.nameOf target

/-- Rows of tokens, each with a mark in front. -/
def Token.separated (m : Mark) (rows : List (List Token)) : List Token :=
  rows.flatMap fun row => .mark m :: row

/-- Rows of tokens with a mark between consecutive ones only. -/
def Token.joined (m : Mark) : List (List Token) → List Token
  | [] => []
  | row :: rest => row ++ separated m rest

/-- A row of tokens between two marks. -/
def Token.enclosed (opening : Mark) (row : List Token) (closing : Mark) : List Token :=
  .mark opening :: (row ++ [.mark closing])

/-- A row of tokens in brackets. -/
def Token.bracketed (row : List Token) : List Token := Token.enclosed .roundOpen row .roundClose

/-- A container out of the tokens of its elements. -/
def containerTokens (kind : ContainerKind) (variadic : Bool) (elems : List (List Token)) :
    List Token :=
  match kind, elems, variadic with
  | .array, [elem], _ => Token.bracketed elem ++ Token.enclosed .squareOpen [] .squareClose
  | .tuple, [elem], true => Token.bracketed elem ++ Token.enclosed .squareOpen [] .squareClose
  | .tuple, elems, false => Token.enclosed .squareOpen (Token.joined .comma elems) .squareClose
  | .record, [key, value], false =>
    .keyword .record :: Token.enclosed .angleOpen (Token.joined .comma [key, value]) .angleClose
  | _, _, _ => []

/-- A reference out of the tokens of its arguments. -/
def referenceTokens (target : DefId) (args : List (List Token)) : List Token :=
  .reference target args.length ::
    (if args.isEmpty then [] else Token.enclosed .angleOpen (Token.joined .comma args) .angleClose)

/-! ## 2. Expressions -/

mutual

/-- The tokens of an expression. -/
def typeTokens : Ty → List Token
  | .primitive .null => [.literal .null]
  | .primitive .bool => [.keyword .boolean]
  | .primitive .number => [.keyword .number]
  | .primitive .string => [.keyword .string]
  | .any => [.keyword .any]
  | .absent => [.keyword .undefined]
  | .generic name => [.parameter name]
  | .named target args => referenceTokens target (typeTokensOfAll args)
  | .container kind elems variadic => containerTokens kind variadic (typeTokensOfAll elems)
  | .union members =>
    Token.bracketed (Token.joined .bar ((typeTokensOfAll members).map Token.bracketed))
  | .literals values => Token.joined .bar (values.map fun v => [.literal v])
  | .optional inner =>
    Token.bracketed (Token.joined .bar
      [Token.bracketed (typeTokens inner), Token.bracketed [.keyword .undefined]])

def typeTokensOfAll : List Ty → List (List Token)
  | [] => []
  | ty :: rest => typeTokens ty :: typeTokensOfAll rest

end

theorem typeTokensOfAll_eq_map (tys : List Ty) : typeTokensOfAll tys = tys.map typeTokens := by
  induction tys with
  | nil => rfl
  | cons ty rest ih => rw [typeTokensOfAll, ih, List.map_cons]

/-! ## 3. Where tokens come from -/

/-- Whether a token is one that parts of expressions bring in: a reference, a parameter and a value
    come from a part that says so. -/
def Token.StandsIn (parts : List Ty) : Token → Prop
  | .reference target count => ∃ args, Ty.named target args ∈ parts ∧ args.length = count
  | .parameter name => .generic name ∈ parts
  | .literal v => v = .null ∨ ∃ values, Ty.literals values ∈ parts ∧ v ∈ values
  | _ => True

theorem Token.StandsIn.mono {t : Token} {parts others : List Ty} (h : t.StandsIn parts)
    (hsub : parts ⊆ others) : t.StandsIn others := by
  cases t with
  | reference target count =>
    obtain ⟨args, hargs, hcount⟩ := h
    exact ⟨args, hsub hargs, hcount⟩
  | parameter name => exact hsub h
  | literal v =>
    refine Or.imp_right (fun hv => ?_) h
    obtain ⟨values, hvalues, hmem⟩ := hv
    exact ⟨values, hsub hvalues, hmem⟩
  | _ => trivial

section Rows

variable {p : Token → Prop}

theorem forall_mem_joined (m : Mark) (hm : p (.mark m)) {rows : List (List Token)}
    (h : ∀ row ∈ rows, ∀ t ∈ row, p t) : ∀ t ∈ Token.joined m rows, p t := by
  cases rows with
  | nil => exact fun t ht => absurd ht List.not_mem_nil
  | cons row rest =>
    rw [List.forall_mem_cons] at h
    rw [Token.joined, List.forall_mem_append]
    refine ⟨h.1, fun t ht => ?_⟩
    obtain ⟨other, hother, ht⟩ := List.mem_flatMap.mp ht
    rcases List.mem_cons.mp ht with rfl | ht
    · exact hm
    · exact h.2 other hother t ht

theorem forall_mem_enclosed {opening closing : Mark} (hopening : p (.mark opening))
    (hclosing : p (.mark closing)) {row : List Token} (h : ∀ t ∈ row, p t) :
    ∀ t ∈ Token.enclosed opening row closing, p t :=
  List.forall_mem_cons.mpr ⟨hopening,
    List.forall_mem_append.mpr ⟨h, List.forall_mem_singleton.mpr hclosing⟩⟩

theorem forall_mem_containerTokens (hmarks : ∀ m, p (.mark m)) (hrecord : p (.keyword .record))
    {kind : ContainerKind} {variadic : Bool} {elems : List (List Token)}
    (h : ∀ elem ∈ elems, ∀ t ∈ elem, p t) : ∀ t ∈ containerTokens kind variadic elems, p t := by
  have henclosed : ∀ {opening closing row}, (∀ t ∈ row, p t) →
      ∀ t ∈ Token.enclosed opening row closing, p t :=
    forall_mem_enclosed (hmarks _) (hmarks _)
  have hempty : ∀ t ∈ Token.enclosed .squareOpen [] .squareClose, p t :=
    henclosed fun t ht => absurd ht List.not_mem_nil
  unfold containerTokens
  split
  · exact List.forall_mem_append.mpr ⟨henclosed (h _ List.mem_cons_self), hempty⟩
  · exact List.forall_mem_append.mpr ⟨henclosed (h _ List.mem_cons_self), hempty⟩
  · exact henclosed (forall_mem_joined _ (hmarks _) h)
  · exact List.forall_mem_cons.mpr ⟨hrecord, henclosed (forall_mem_joined _ (hmarks _) h)⟩
  · exact fun t ht => absurd ht List.not_mem_nil

end Rows

/-- What a token inside an expression stands in, it stands in for the whole. -/
theorem forall_mem_typeTokens_inside {tys parts : List Ty}
    (ih : ∀ ty ∈ tys, ∀ t ∈ typeTokens ty, t.StandsIn ty.parts)
    (hsub : tys.flatMap Ty.parts ⊆ parts) :
    ∀ row ∈ typeTokensOfAll tys, ∀ t ∈ row, t.StandsIn parts := by
  rw [typeTokensOfAll_eq_map]
  refine List.forall_mem_map.mpr fun ty hty t ht => (ih ty hty t ht).mono fun part hpart => ?_
  exact hsub (List.mem_flatMap_of_mem hty hpart)

/-- **Every token of an expression comes from a part of it.** -/
theorem standsIn_of_mem_typeTokens (ty : Ty) : ∀ t ∈ typeTokens ty, t.StandsIn ty.parts := by
  have hmarks : ∀ {parts} m, Token.StandsIn parts (.mark m) := fun _ => trivial
  induction ty using Ty.ind with
  | primitive kind =>
    cases kind with
    | null => exact List.forall_mem_singleton.mpr (Or.inl rfl)
    | _ => exact List.forall_mem_singleton.mpr trivial
  | generic name => exact List.forall_mem_singleton.mpr (List.mem_singleton_self _)
  | any => exact List.forall_mem_singleton.mpr trivial
  | absent => exact List.forall_mem_singleton.mpr trivial
  | literals values =>
    refine forall_mem_joined _ (hmarks _) (List.forall_mem_map.mpr fun v hv => ?_)
    exact List.forall_mem_singleton.mpr (Or.inr ⟨values, List.mem_singleton_self _, hv⟩)
  | named target args ih =>
    rw [Ty.parts_named]
    have hinside := forall_mem_typeTokens_inside ih (List.subset_cons_self (Ty.named target args) _)
    refine List.forall_mem_cons.mpr ⟨⟨args, List.mem_cons_self, ?_⟩, ?_⟩
    · rw [typeTokensOfAll_eq_map, List.length_map]
    · split
      · exact fun t ht => absurd ht List.not_mem_nil
      · exact forall_mem_enclosed (hmarks _) (hmarks _) (forall_mem_joined _ (hmarks _) hinside)
  | container kind elems variadic ih =>
    rw [Ty.parts_container]
    exact forall_mem_containerTokens hmarks trivial
      (forall_mem_typeTokens_inside ih (List.subset_cons_self (Ty.container kind elems variadic) _))
  | union members ih =>
    rw [Ty.parts_union]
    have hinside := forall_mem_typeTokens_inside ih (List.subset_cons_self (Ty.union members) _)
    refine forall_mem_enclosed (hmarks _) (hmarks _) (forall_mem_joined _ (hmarks _) ?_)
    exact List.forall_mem_map.mpr fun row hrow =>
      forall_mem_enclosed (hmarks _) (hmarks _) (hinside row hrow)
  | optional inner ih =>
    have hinner : ∀ t ∈ typeTokens inner, t.StandsIn (Ty.optional inner).parts := fun t ht =>
      (ih t ht).mono (List.subset_cons_self (Ty.optional inner) _)
    refine forall_mem_enclosed (hmarks _) (hmarks _) (forall_mem_joined _ (hmarks _) ?_)
    refine List.forall_mem_cons.mpr ⟨forall_mem_enclosed (hmarks _) (hmarks _) hinner, ?_⟩
    refine List.forall_mem_singleton.mpr (forall_mem_enclosed (hmarks _) (hmarks _) ?_)
    exact List.forall_mem_singleton.mpr trivial

end WireContract.Bindings
