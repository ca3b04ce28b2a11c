import WireContract.Bindings.Declaration
import WireContract.Proofs.Bindings.Reach
import WireContract.Proofs.Bindings.Tokens

/-!
# The pieces of the client code

What is written is put together from pieces: the tokens of type expressions, the headings that
introduce a name with its type parameters, and plain text around them. Which pieces a declaration
has depends on the definition alone, and the table only gives the references their names.

* `definitionPieces`, `wrapperPieces`: the pieces of a declaration and of a wrapper;
* `Spells`: a draft that comes to its end is written with these pieces, and the ways to put drafts
  together;
* `typeText_spells`, `declarationText_spells`, `wrapperText_spells`: the pieces of what is written;
* `headings_definitionPieces`, `tokensOf_definitionPieces`: the names that a declaration introduces
  and refers to.
-/

namespace WireContract.Bindings

open Draft

/-! ## 1. Pieces -/

/-- What client code is put together from. -/
inductive Piece where
  | plain (text : String)
  /-- The name that a declaration introduces, with its type parameters. -/
  | heading (name : String) (generics : List String)
  | token (t : Token)
  deriving Repr

/-- How a piece is written. -/
def Piece.text (types : TypeTable) : Piece → String
  | .plain text => text
  | .heading name generics => name ++ headerParameters generics
  | .token t => t.text types

/-- The characters of pieces, one behind the other. -/
def written (types : TypeTable) (pieces : List Piece) : List Char :=
  pieces.flatMap fun piece => (piece.text types).toList

theorem written_append (types : TypeTable) (xs ys : List Piece) :
    written types (xs ++ ys) = written types xs ++ written types ys :=
  List.flatMap_append

/-- The pieces of an expression. -/
def typePieces (ty : Ty) : List Piece := (typeTokens ty).map .token

/-- The pieces of one member of an interface. -/
def fieldPieces (f : Field) : List Piece :=
  [.plain (memberName f.name)] ++ [.plain (if f.shape.2 then "?: " else ": ")] ++
    typePieces f.shape.1 ++ [.plain ";"]

/-- The pieces of one line of an interface. -/
def linePieces (indentation : String) (f : Field) : List Piece :=
  [.plain indentation] ++ fieldPieces f ++ [.plain "\n"]

/-- The pieces of one line of an enumeration. -/
def memberPieces (indentation : String) (m : EnumMember) : List Piece :=
  [.plain (indentation ++ m.name ++ " = "), .plain m.value.render, .plain ",\n"]

/-- The pieces of the declaration of a definition. -/
def definitionPieces (indentation : String) : Definition → List Piece
  | .struct s =>
    [.plain (comment s.doc "").text] ++ [.plain "export interface ", .heading s.name s.generics] ++
      (if s.fields.isEmpty then [.plain " \x7b\x7d\n"]
       else [.plain " \x7b\n"] ++ s.fields.flatMap (linePieces indentation) ++ [.plain "\x7d\n"])
  | .enumeration e =>
    [.plain (comment e.doc "").text] ++
      [.plain "export enum ", .heading e.name [], .plain " \x7b\n"] ++
      e.members.flatMap (memberPieces indentation) ++ [.plain "\x7d\n"]
  | .alias a =>
    [.plain "export type ", .heading a.name a.generics, .plain " = "] ++ typePieces a.ty ++
      [.plain ";\n"]

/-- The pieces of the declaration of a number; none where there is no definition. -/
def declarationPieces (types : TypeTable) (indentation : String) (id : DefId) : List Piece :=
  match types.get id with
  | .ok body => definitionPieces indentation body
  | .error _ => []

theorem declarationPieces_of_get {types : TypeTable} {id : DefId} {body : Definition}
    (h : types.get id = .ok body) (indentation : String) :
    declarationPieces types indentation id = definitionPieces indentation body := by
  rw [declarationPieces, h]

/-- The pieces of the wrapper of a method whose parameters may all be left out or not. -/
def wrapperBodyPieces (options : Options) (m : Method) (omissible : Bool) : List Piece :=
  [.plain (comment m.doc "").text] ++
    [.plain ("export async function " ++ m.name ++ "(parameters: ")] ++
    typePieces (.reference m.params) ++ [.plain (if omissible then " = \x7b\x7d" else "")] ++
    [.plain ("): Promise<" ++ options.resultType ++ "<")] ++ typePieces m.returns ++
    [.plain ">> \x7b\n"] ++
    [.plain (options.indentation ++ "return await " ++ options.dispatch ++ "(")] ++
    [.plain (Json.quoted m.name)] ++ [.plain ", parameters);\n\x7d\n"]

/-- The pieces of the wrapper of a method; none where its parameters are no struct. -/
def wrapperPieces (types : TypeTable) (options : Options) (m : Method) : List Piece :=
  match types.get m.params with
  | .ok (.struct s) => wrapperBodyPieces options m (s.requiredFields == 0)
  | _ => []

/-! ## 2. Spelling -/

/-- If the draft comes to its end, its text is that of the pieces. -/
def Spells (types : TypeTable) (d : Draft) (pieces : List Piece) : Prop :=
  d.fault = none → d.text.toList = written types pieces

namespace Spells

variable {types : TypeTable} {d e : Draft} {xs ys : List Piece}

theorem write {text : String} (h : text.toList = written types xs) :
    Spells types (.write text) xs := fun _ => h

theorem plain (text : String) : Spells types (.write text) [.plain text] :=
  write (List.append_nil _).symm

theorem token (t : Token) : Spells types (.write (t.text types)) [.token t] :=
  write (List.append_nil _).symm

theorem empty : Spells types .empty [] := write rfl

theorem fail (fault : SchemaFault) : Spells types (.fail fault) xs := fun h => nomatch h

theorem append (hd : Spells types d xs) (he : Spells types e ys) :
    Spells types (d ++ e) (xs ++ ys) := by
  intro h
  cases hfault : d.fault with
  | some fault =>
    rw [append_of_fault d e fault hfault, hfault] at h
    cases h
  | none =>
    have hrest : e.fault = none := by
      rw [append_def, Draft.append, hfault] at h
      exact h
    rw [append_text hfault, String.toList_append, hd hfault, he hrest, written_append]

theorem comment (doc : Option String) (indent : String) :
    Spells types (comment doc indent) [.plain (comment doc indent).text] := by
  cases doc with
  | none => exact write rfl
  | some doc => exact plain _

theorem concat {α : Type} {f : α → Draft} {pieces : α → List Piece} {items : List α}
    (h : ∀ a ∈ items, Spells types (f a) (pieces a)) :
    Spells types (concat (items.map f)) (items.flatMap pieces) := by
  induction items with
  | nil => exact empty
  | cons a rest ih =>
    rw [List.forall_mem_cons] at h
    rw [List.map_cons, Draft.concat, List.flatMap_cons]
    exact h.1.append (ih h.2)

/-- A name that a text in front introduces. -/
theorem heading (text name : String) (generics : List String) :
    Spells types (.write (text ++ name ++ headerParameters generics))
      [.plain text, .heading name generics] :=
  write (by simp [written, Piece.text])

/-- A value that no type expression is made of. -/
theorem constant (v : Json) : Spells types (literal v) [.plain v.render] := by
  cases v with
  | array items => exact fail _
  | object members => exact fail _
  | _ => exact plain _

/-! ### Rows of tokens -/

theorem tokens_append {ts us : List Token} (hd : Spells types d (ts.map .token))
    (he : Spells types e (us.map .token)) : Spells types (d ++ e) ((ts ++ us).map .token) := by
  rw [List.map_append]
  exact hd.append he

theorem mark (m : Mark) : Spells types (.write m.text) ([Token.mark m].map .token) :=
  token (.mark m)

theorem enclosed (opening : Mark) {row : List Token} (h : Spells types d (row.map .token))
    (closing : Mark) :
    Spells types (.write opening.text ++ d ++ .write closing.text)
      ((Token.enclosed opening row closing).map .token) :=
  ((mark opening).tokens_append h).tokens_append (mark closing)

section Lists

variable {α : Type} {f : α → Draft} {ts : α → List Token} {items : List α}

theorem separated (m : Mark) (h : ∀ a ∈ items, Spells types (f a) ((ts a).map .token)) :
    Spells types (separated m.text (items.map f))
      ((Token.separated m (items.map ts)).map .token) := by
  induction items with
  | nil => exact empty
  | cons a rest ih =>
    rw [List.forall_mem_cons] at h
    rw [List.map_cons, Draft.separated, List.map_cons, Token.separated, List.flatMap_cons]
    exact ((mark m).tokens_append h.1).tokens_append (ih h.2)

theorem joined (m : Mark) (h : ∀ a ∈ items, Spells types (f a) ((ts a).map .token)) :
    Spells types (joined m.text (items.map f))
      ((Token.joined m (items.map ts)).map .token) := by
  cases items with
  | nil => exact empty
  | cons a rest =>
    rw [List.forall_mem_cons] at h
    rw [List.map_cons, Draft.joined, List.map_cons, Token.joined]
    exact h.1.tokens_append (separated m h.2)

end Lists

theorem literal (v : Json) : Spells types (literal v) ([Token.literal v].map .token) := by
  cases v with
  | null => exact token (.literal .null)
  | bool b => exact token (.literal (.bool b))
  | number n => exact token (.literal (.number n))
  | string s => exact token (.literal (.string s))
  | array items => exact fail _
  | object members => exact fail _

end Spells

/-! ## 3. Expressions -/

section Expressions

variable {types : TypeTable}

theorem bracketed_spells {d : Draft} {row : List Token} (h : Spells types d (row.map .token)) :
    Spells types (bracketed d) ((Token.bracketed row).map .token) :=
  h.enclosed .roundOpen .roundClose

/-- An element in brackets with an empty pair of square ones behind it. -/
theorem repeated_spells {d : Draft} {row : List Token} (h : Spells types d (row.map .token)) :
    Spells types (write "(" ++ d ++ write ")[]")
      ((Token.bracketed row ++ Token.enclosed .squareOpen [] .squareClose).map .token) := by
  have hopening : Spells types (write "(") ([Token.mark .roundOpen].map .token) :=
    .mark .roundOpen
  have hclosing : Spells types (write ")[]")
      ([Token.mark .roundClose, .mark .squareOpen, .mark .squareClose].map .token) :=
    .write (by simp [written, Piece.text, Token.text, Mark.text])
  have hrow : Token.bracketed row ++ Token.enclosed .squareOpen [] .squareClose =
      [.mark .roundOpen] ++ row ++ [.mark .roundClose, .mark .squareOpen, .mark .squareClose] := by
    simp [Token.bracketed, Token.enclosed]
  rw [hrow]
  exact (hopening.tokens_append h).tokens_append hclosing

/-- Two expressions as the key and the value of a record. -/
theorem record_spells {key value : Draft} {ks vs : List Token}
    (hkey : Spells types key (ks.map .token)) (hvalue : Spells types value (vs.map .token)) :
    Spells types (write "Record<" ++ key ++ write ", " ++ value ++ write ">")
      ((containerTokens .record false [ks, vs]).map .token) := by
  have hopening : Spells types (write "Record<")
      ([Token.keyword .record, .mark .angleOpen].map .token) :=
    .write (by simp [written, Piece.text, Token.text, Keyword.text, Mark.text])
  have hclosing : Spells types (write ">") ([Token.mark .angleClose].map .token) :=
    .mark .angleClose
  have hrow : containerTokens .record false [ks, vs] =
      [.keyword .record, .mark .angleOpen] ++ ks ++ [.mark .comma] ++ vs ++
        [.mark .angleClose] := by
    simp [containerTokens, Token.enclosed, Token.joined, Token.separated]
  rw [hrow]
  exact (((hopening.tokens_append hkey).tokens_append (.mark .comma)).tokens_append
    hvalue).tokens_append hclosing

theorem containerText_spells {elems : List Ty}
    (h : ∀ elem ∈ elems, Spells types (typeText types elem) (typePieces elem))
    (kind : ContainerKind) (variadic : Bool) (ty : Ty) :
    Spells types (containerText kind variadic (elems.map (typeText types)) ty)
      ((containerTokens kind variadic (elems.map typeTokens)).map .token) := by
  have hfixed := (Spells.joined .comma h).enclosed .squareOpen .squareClose
  rcases elems with _ | ⟨first, _ | ⟨second, _ | ⟨third, rest⟩⟩⟩
  · cases kind <;> cases variadic <;> first | exact .fail _ | exact hfixed
  · have hone := repeated_spells (h first List.mem_cons_self)
    cases kind <;> cases variadic <;> first | exact .fail _ | exact hone | exact hfixed
  · have htwo := record_spells (h first List.mem_cons_self)
      (h second (List.mem_cons_of_mem _ List.mem_cons_self))
    cases kind <;> cases variadic <;> first | exact .fail _ | exact htwo | exact hfixed
  · cases kind <;> cases variadic <;> first | exact .fail _ | exact hfixed

theorem referenceText_spells {args : List Ty}
    (h : ∀ arg ∈ args, Spells types (typeText types arg) (typePieces arg)) (target : DefId) :
    Spells types (referenceText types target (args.map (typeText types)))
      ((referenceTokens target (args.map typeTokens)).map .token) := by
  unfold referenceText
  split
  · exact .fail _
  · rename_i body hget
    split
    · exact .fail _
    · have hname : Spells types (mention target ++ write body.name)
          ([Token.reference target (args.map typeTokens).length].map .token) := by
        rw [← TypeTable.nameOf_of_get hget]
        have hmention : Spells types (mention target) [] := fun _ => rfl
        exact hmention.append (.token (.reference target _))
      rw [referenceTokens, List.isEmpty_map, List.isEmpty_map]
      -- Both rows end where there are no arguments, so the two tests are split together.
      rcases Bool.eq_false_or_eq_true args.isEmpty with hargs | hargs
      · rw [if_pos hargs, if_pos hargs]
        exact hname.tokens_append .empty
      · have hnone : ¬ args.isEmpty = true := by rw [hargs]; exact Bool.false_ne_true
        rw [if_neg hnone, if_neg hnone]
        exact hname.tokens_append ((Spells.joined .comma h).enclosed .angleOpen .angleClose)

/-- **An expression that is written to its end is written with its tokens.** -/
theorem typeText_spells (types : TypeTable) (ty : Ty) :
    Spells types (typeText types ty) (typePieces ty) := by
  induction ty using Ty.ind with
  | primitive kind =>
    cases kind with
    | null => exact .token (.literal .null)
    | bool => exact .token (.keyword .boolean)
    | number => exact .token (.keyword .number)
    | string => exact .token (.keyword .string)
  | named target args ih =>
    rw [typeText, typeTexts_eq_map, typePieces, typeTokens, typeTokensOfAll_eq_map]
    exact referenceText_spells ih target
  | generic name => exact .token (.parameter name)
  | container kind elems variadic ih =>
    rw [typeText, typeTexts_eq_map, typePieces, typeTokens, typeTokensOfAll_eq_map]
    exact containerText_spells ih kind variadic _
  | union members ih =>
    cases members with
    | nil => exact .fail _
    | cons first rest =>
      have hall := Spells.joined .bar fun member hm => bracketed_spells (ih member hm)
      rw [typeText, typeTexts_eq_map, List.map_map, typePieces, typeTokens,
        typeTokensOfAll_eq_map, List.map_map]
      exact bracketed_spells hall
  | literals values =>
    cases values with
    | nil => exact .fail _
    | cons first rest => exact Spells.joined .bar fun v (_ : v ∈ first :: rest) => .literal v
  | optional inner ih =>
    have hopening : Spells types (write "((")
        ([Token.mark .roundOpen, .mark .roundOpen].map .token) :=
      .write (by simp [written, Piece.text, Token.text, Mark.text])
    have hclosing : Spells types (write ")|(undefined))")
        ([Token.mark .roundClose, .mark .bar, .mark .roundOpen, .keyword .undefined,
          .mark .roundClose, .mark .roundClose].map .token) :=
      .write (by simp [written, Piece.text, Token.text, Keyword.text, Mark.text])
    have hrow : typeTokens (.optional inner) =
        [.mark .roundOpen, .mark .roundOpen] ++ typeTokens inner ++
          [.mark .roundClose, .mark .bar, .mark .roundOpen, .keyword .undefined,
            .mark .roundClose, .mark .roundClose] := by
      simp [typeTokens, Token.bracketed, Token.enclosed, Token.joined, Token.separated]
    rw [typePieces, hrow]
    exact (hopening.tokens_append ih).tokens_append hclosing
  | absent => exact .token (.keyword .undefined)
  | any => exact .token (.keyword .any)

end Expressions

/-! ## 4. Declarations -/

section Declarations

theorem fieldText_spells (types : TypeTable) (f : Field) :
    Spells types (fieldText types f) (fieldPieces f) :=
  (((Spells.plain _).append (.plain _)).append (typeText_spells types f.shape.1)).append
    (.plain ";")

theorem interfaceText_spells (types : TypeTable) (indentation : String) (s : StructDef) :
    Spells types (interfaceText types indentation s)
      (definitionPieces indentation (.struct s)) := by
  have hbody : Spells types
      (if s.fields.isEmpty then write " \x7b\x7d\n"
       else write " \x7b\n" ++ concat (s.fields.map (interfaceLine types indentation)) ++
         write "\x7d\n")
      (if s.fields.isEmpty then [.plain " \x7b\x7d\n"]
       else [.plain " \x7b\n"] ++ s.fields.flatMap (linePieces indentation) ++
         [.plain "\x7d\n"]) := by
    have hlines := Spells.concat fun f (_ : f ∈ s.fields) =>
      ((Spells.plain indentation).append (fieldText_spells types f)).append (.plain "\n")
    split
    · exact .plain _
    · exact ((Spells.plain _).append hlines).append (.plain _)
  exact ((Spells.comment s.doc "").append (.heading "export interface " s.name s.generics)).append
    hbody

theorem enumerationText_spells (types : TypeTable) (indentation : String) (e : EnumDef) :
    Spells types (enumerationText indentation e)
      (definitionPieces indentation (.enumeration e)) := by
  have hline : ∀ m ∈ e.members, Spells types
      (write (indentation ++ m.name ++ " = ") ++ literal m.value ++ write ",\n")
      (memberPieces indentation m) :=
    fun m _ => ((Spells.plain (indentation ++ m.name ++ " = ")).append (.constant m.value)).append
      (.plain ",\n")
  have hlines := Spells.concat hline
  have hheading : Spells types (write ("export enum " ++ e.name ++ " \x7b\n"))
      [.plain "export enum ", .heading e.name [], .plain " \x7b\n"] :=
    .write (by simp [written, Piece.text, headerParameters])
  exact (((Spells.comment e.doc "").append hheading).append hlines).append (.plain "\x7d\n")

theorem aliasText_spells (types : TypeTable) (a : AliasDef) (indentation : String) :
    Spells types (aliasText types a) (definitionPieces indentation (.alias a)) := by
  have hheading : Spells types
      (write ("export type " ++ a.name ++ headerParameters a.generics ++ " = "))
      [.plain "export type ", .heading a.name a.generics, .plain " = "] :=
    .write (by simp [written, Piece.text])
  exact (hheading.append (typeText_spells types a.ty)).append (.plain ";\n")

/-- **A declaration that is written to its end is written with the pieces of its definition.** -/
theorem declarationText_spells (types : TypeTable) (indentation : String) (id : DefId) :
    Spells types (declarationText types indentation id)
      (declarationPieces types indentation id) := by
  unfold declarationText declarationPieces
  cases types.get id with
  | error fault => exact .fail _
  | ok body =>
    cases body with
    | struct s => exact interfaceText_spells types indentation s
    | enumeration e => exact enumerationText_spells types indentation e
    | «alias» a =>
      cases types.aliasCycle id with
      | error fault => exact .fail _
      | ok names =>
        cases names with
        | some names => exact .fail _
        | none => exact aliasText_spells types a indentation

end Declarations

/-! ## 5. Wrappers -/

/-- **A wrapper that is written to its end is written with the pieces of its method.** -/
theorem wrapperText_spells (types : TypeTable) (options : Options) (m : Method) :
    Spells types (wrapperText types options m) (wrapperPieces types options m) := by
  have hbody : ∀ omissible, Spells types (wrapperBody types options m omissible)
      (wrapperBodyPieces options m omissible) := fun omissible =>
    (((((((((Spells.comment m.doc "").append (.plain _)).append (typeText_spells types _)).append
      (.plain _)).append (.plain _)).append (typeText_spells types _)).append (.plain _)).append
      (.plain _)).append (.constant (.string m.name))).append (.plain _)
  unfold wrapperText wrapperPieces
  cases types.get m.params with
  | error fault => exact .fail _
  | ok body =>
    cases body with
    | struct s => exact hbody _
    | _ => exact .fail _

/-! ## 6. What pieces introduce and refer to -/

/-- The name that a piece introduces, with its type parameters. -/
def Piece.heading? : Piece → Option (String × List String)
  | .heading name generics => some (name, generics)
  | _ => none

def Piece.token? : Piece → Option Token
  | .token t => some t
  | _ => none

/-- The names that pieces introduce, with their type parameters. -/
def headings (pieces : List Piece) : List (String × List String) := pieces.filterMap Piece.heading?

/-- The tokens among pieces. -/
def tokensOf (pieces : List Piece) : List Token := pieces.filterMap Piece.token?

@[simp] theorem headings_typePieces (ty : Ty) : headings (typePieces ty) = [] :=
  List.filterMap_eq_nil_iff.mpr (List.forall_mem_map.mpr fun _ _ => rfl)

@[simp] theorem tokensOf_typePieces (ty : Ty) : tokensOf (typePieces ty) = typeTokens ty := by
  rw [tokensOf, typePieces, List.filterMap_map]
  exact List.filterMap_some

@[simp] theorem headings_append (xs ys : List Piece) :
    headings (xs ++ ys) = headings xs ++ headings ys :=
  List.filterMap_append

@[simp] theorem tokensOf_append (xs ys : List Piece) :
    tokensOf (xs ++ ys) = tokensOf xs ++ tokensOf ys :=
  List.filterMap_append

@[simp] theorem headings_plain (text : String) (rest : List Piece) :
    headings (.plain text :: rest) = headings rest := rfl

@[simp] theorem tokensOf_plain (text : String) (rest : List Piece) :
    tokensOf (.plain text :: rest) = tokensOf rest := rfl

@[simp] theorem headings_nil : headings [] = [] := rfl

@[simp] theorem tokensOf_nil : tokensOf [] = [] := rfl

section Blocks

variable {indentation : String}

theorem headings_linePieces (f : Field) : headings (linePieces indentation f) = [] := by
  simp [linePieces, fieldPieces]

theorem tokensOf_linePieces (f : Field) :
    tokensOf (linePieces indentation f) = typeTokens f.shape.1 := by
  simp [linePieces, fieldPieces]

/-- **A declaration introduces its definition, with its type parameters, and nothing else.** -/
theorem headings_definitionPieces (body : Definition) :
    headings (definitionPieces indentation body) = [(body.name, body.generics)] := by
  cases body with
  | struct s =>
    have hlines : headings (s.fields.flatMap (linePieces indentation)) = [] := by
      rw [headings, List.filterMap_flatMap, List.flatMap_eq_nil_iff]
      exact fun f _ => headings_linePieces f
    rw [definitionPieces]
    split
    · rfl
    · simp only [headings_append, hlines]
      rfl
  | enumeration e =>
    have hmembers : headings (e.members.flatMap (memberPieces indentation)) = [] := by
      rw [headings, List.filterMap_flatMap, List.flatMap_eq_nil_iff]
      exact fun m _ => rfl
    simp only [definitionPieces, headings_append, hmembers]
    rfl
  | «alias» a =>
    simp only [definitionPieces, headings_append, headings_typePieces]
    rfl

/-- **The tokens of a declaration are those of its expressions.** -/
theorem tokensOf_definitionPieces (body : Definition) :
    tokensOf (definitionPieces indentation body) = body.expressions.flatMap typeTokens := by
  cases body with
  | struct s =>
    have hlines : tokensOf (s.fields.flatMap (linePieces indentation)) =
        s.fields.flatMap fun f => typeTokens f.shape.1 := by
      rw [tokensOf, List.filterMap_flatMap]
      exact List.flatMap_congr fun f _ => tokensOf_linePieces f
    rw [definitionPieces, Definition.expressions, List.flatMap_map]
    split
    · rename_i hempty
      rw [List.isEmpty_iff.mp hempty]
      rfl
    · simp only [tokensOf_append, hlines]
      exact List.append_nil _
  | enumeration e =>
    have hmembers : tokensOf (e.members.flatMap (memberPieces indentation)) = [] := by
      rw [tokensOf, List.filterMap_flatMap, List.flatMap_eq_nil_iff]
      exact fun m _ => rfl
    simp only [definitionPieces, tokensOf_append, hmembers]
    rfl
  | «alias» a =>
    simp only [definitionPieces, tokensOf_append, tokensOf_typePieces]
    exact (List.append_nil _).trans (List.flatMap_singleton ..).symm

theorem headings_wrapperPieces (types : TypeTable) (options : Options) (m : Method) :
    headings (wrapperPieces types options m) = [] := by
  unfold wrapperPieces
  split
  · simp [wrapperBodyPieces]
  · rfl

theorem tokensOf_wrapperPieces {types : TypeTable} {options : Options} {m : Method} {s : StructDef}
    (h : types.get m.params = .ok (.struct s)) :
    tokensOf (wrapperPieces types options m) = m.expressions.flatMap typeTokens := by
  simp [wrapperPieces, h, wrapperBodyPieces, Method.expressions]

end Blocks

end WireContract.Bindings
