import WireContract.Proofs.Bindings.Completion
import WireContract.Proofs.Bindings.Pieces
import WireContract.Proofs.Type.Renaming

/-!
# Texts under other numbers

The numbers of definitions are not written, only the names behind them. So a declaration has the
same text over two tables that number the definitions differently, as long as what it refers to is
called the same in both.

* `typeTokens_rename`, `definitionPieces_rename`: renumbering changes the references among the
  pieces only;
* `written_rename`: and these are written alike if they are called alike;
* `declarationText_rename`, `wrapperText_rename`: the text of a declaration and of a wrapper.
-/

namespace WireContract

variable {ρ : DefId → DefId}

/-- The method with other numbers in its references. -/
def Method.rename (ρ : DefId → DefId) (m : Method) : Method :=
  { m with params := ρ m.params, returns := m.returns.rename ρ }

theorem Method.expressions_rename (m : Method) :
    (m.rename ρ).expressions = m.expressions.map (Ty.rename ρ) := by
  simp [rename, expressions, Ty.reference]

theorem Method.mentions_rename (m : Method) : (m.rename ρ).mentions = m.mentions.map ρ := by
  rw [mentions, mentions, List.map_cons, ← Ty.mentions_rename]
  rfl

namespace Bindings

/-! ## 1. Tokens -/

/-- The token with another number if it is a reference. -/
def Token.rename (ρ : DefId → DefId) : Token → Token
  | .reference target count => .reference (ρ target) count
  | t => t

section Rows

variable {m : Mark} {rows : List (List Token)}

theorem map_joined : (Token.joined m rows).map (Token.rename ρ) =
    Token.joined m (rows.map (List.map (Token.rename ρ))) := by
  cases rows with
  | nil => rfl
  | cons row rest =>
    simp only [Token.joined, Token.separated, List.map_append, List.map_cons, List.map_flatMap,
      List.flatMap_map]
    rfl

theorem map_enclosed (opening closing : Mark) (row : List Token) :
    (Token.enclosed opening row closing).map (Token.rename ρ) =
      Token.enclosed opening (row.map (Token.rename ρ)) closing := by
  simp [Token.enclosed, Token.rename]

theorem map_bracketed (row : List Token) :
    (Token.bracketed row).map (Token.rename ρ) = Token.bracketed (row.map (Token.rename ρ)) :=
  map_enclosed _ _ row

theorem map_containerTokens (kind : ContainerKind) (variadic : Bool) (elems : List (List Token)) :
    (containerTokens kind variadic elems).map (Token.rename ρ) =
      containerTokens kind variadic (elems.map (List.map (Token.rename ρ))) := by
  rcases elems with _ | ⟨first, _ | ⟨second, _ | ⟨third, rest⟩⟩⟩ <;> cases kind <;>
    cases variadic <;>
    simp [containerTokens, Token.bracketed, map_enclosed, map_joined, Token.rename]

theorem map_referenceTokens (target : DefId) (args : List (List Token)) :
    (referenceTokens target args).map (Token.rename ρ) =
      referenceTokens (ρ target) (args.map (List.map (Token.rename ρ))) := by
  rw [referenceTokens, referenceTokens, List.map_cons, List.length_map, List.isEmpty_map,
    apply_ite (List.map (Token.rename ρ)), map_enclosed, map_joined]
  rfl

end Rows

theorem typeTokensOfAll_rename {tys : List Ty}
    (ih : ∀ ty ∈ tys, typeTokens (ty.rename ρ) = (typeTokens ty).map (Token.rename ρ)) :
    typeTokensOfAll (tys.map (Ty.rename ρ)) =
      (typeTokensOfAll tys).map (List.map (Token.rename ρ)) := by
  rw [typeTokensOfAll_eq_map, typeTokensOfAll_eq_map, List.map_map, List.map_map]
  exact List.map_congr_left ih

/-- **The tokens of a renumbered expression are its tokens, renumbered.** -/
theorem typeTokens_rename (ty : Ty) :
    typeTokens (ty.rename ρ) = (typeTokens ty).map (Token.rename ρ) := by
  induction ty using Ty.ind with
  | primitive kind => cases kind <;> rfl
  | named target args ih =>
    rw [Ty.rename_named, typeTokens, typeTokensOfAll_rename ih, typeTokens, map_referenceTokens]
  | container kind elems variadic ih =>
    rw [Ty.rename_container, typeTokens, typeTokensOfAll_rename ih, typeTokens,
      map_containerTokens]
  | union members ih =>
    have hrows : ∀ rows : List (List Token),
        (rows.map (List.map (Token.rename ρ))).map Token.bracketed =
          (rows.map Token.bracketed).map (List.map (Token.rename ρ)) := by
      intro rows
      rw [List.map_map, List.map_map]
      exact List.map_congr_left fun row _ => (map_bracketed row).symm
    rw [Ty.rename_union, typeTokens, typeTokensOfAll_rename ih, typeTokens, map_bracketed,
      map_joined, hrows]
  | literals values =>
    rw [Ty.rename, typeTokens, map_joined, List.map_map]
    rfl
  | optional inner ih =>
    rw [Ty.rename, typeTokens, typeTokens, ih, map_bracketed, map_joined, List.map_cons,
      map_bracketed]
    rfl
  | _ => rfl

/-- What a reference among the tokens leads to is mentioned. -/
theorem mem_mentions_of_reference {ty : Ty} {target : DefId} {count : Nat}
    (h : .reference target count ∈ typeTokens ty) : target ∈ ty.mentions := by
  obtain ⟨args, hpart, -⟩ := standsIn_of_mem_typeTokens ty _ h
  exact Ty.mem_mentions_iff.mpr ⟨args, hpart⟩

/-! ## 2. Pieces -/

/-- The piece with another number if it is a reference. -/
def Piece.rename (ρ : DefId → DefId) : Piece → Piece
  | .token t => .token (t.rename ρ)
  | p => p

theorem typePieces_rename (ty : Ty) :
    typePieces (ty.rename ρ) = (typePieces ty).map (Piece.rename ρ) := by
  rw [typePieces, typeTokens_rename, typePieces, List.map_map, List.map_map]
  rfl

theorem linePieces_rename (indentation : String) (f : Field) :
    linePieces indentation (f.rename ρ) = (linePieces indentation f).map (Piece.rename ρ) := by
  simp only [linePieces, fieldPieces, Field.shape_rename, typePieces_rename, List.map_append]
  rfl

/-- **The pieces of a renumbered definition are its pieces, renumbered.** -/
theorem definitionPieces_rename (indentation : String) (body : Definition) :
    definitionPieces indentation (body.rename ρ) =
      (definitionPieces indentation body).map (Piece.rename ρ) := by
  cases body with
  | struct s =>
    have hlines : (s.fields.map (Field.rename ρ)).flatMap (linePieces indentation) =
        (s.fields.flatMap (linePieces indentation)).map (Piece.rename ρ) := by
      rw [List.flatMap_map, List.map_flatMap]
      exact List.flatMap_congr fun f _ => linePieces_rename indentation f
    simp only [Definition.rename, definitionPieces, List.isEmpty_map, hlines, List.map_append,
      apply_ite (List.map (Piece.rename ρ))]
    rfl
  | enumeration e =>
    have hlines : (e.members.flatMap (memberPieces indentation)).map (Piece.rename ρ) =
        e.members.flatMap (memberPieces indentation) := by
      rw [List.map_flatMap]
      rfl
    simp only [Definition.rename, definitionPieces, List.map_append, hlines]
    rfl
  | «alias» a =>
    simp only [Definition.rename, definitionPieces, typePieces_rename, List.map_append]
    rfl

theorem wrapperBodyPieces_rename (options : Options) (m : Method) (omissible : Bool) :
    wrapperBodyPieces options (m.rename ρ) omissible =
      (wrapperBodyPieces options m omissible).map (Piece.rename ρ) := by
  have hparams : typePieces (.reference (ρ m.params)) =
      (typePieces (.reference m.params)).map (Piece.rename ρ) := by
    rw [← typePieces_rename, Ty.reference, Ty.reference, Ty.rename_named, List.map_nil]
  simp only [Method.rename, wrapperBodyPieces, hparams, typePieces_rename, List.map_append]
  rfl

/-! ## 3. Texts -/

section Texts

variable {types types' : TypeTable}

/-- **Pieces are written alike over two tables that call alike what they refer to.** -/
theorem written_rename {pieces : List Piece}
    (h : ∀ target count, .reference target count ∈ tokensOf pieces →
      types'.nameOf (ρ target) = types.nameOf target) :
    written types' (pieces.map (Piece.rename ρ)) = written types pieces := by
  rw [written, List.flatMap_map, written]
  refine List.flatMap_congr fun piece hpiece => congrArg String.toList ?_
  cases piece with
  | token t =>
    cases t with
    | reference target count =>
      exact h target count (List.mem_filterMap.mpr ⟨_, hpiece, rfl⟩)
    | _ => rfl
  | _ => rfl

/-- Two drafts that come to their end with the same characters have the same text. -/
theorem text_eq_of_spells {d d' : Draft} {pieces : List Piece} (hd : Spells types d pieces)
    (hd' : Spells types' d' (pieces.map (Piece.rename ρ))) (hfault : d.fault = none)
    (hfault' : d'.fault = none)
    (h : ∀ target count, .reference target count ∈ tokensOf pieces →
      types'.nameOf (ρ target) = types.nameOf target) : d'.text = d.text := by
  refine String.toList_inj.mp ?_
  rw [hd' hfault', hd hfault, written_rename h]

/-- **The text of a declaration does not depend on the numbers.** -/
theorem declarationText_rename {indentation : String} {id : DefId} {body : Definition}
    (hbody : types.get id = .ok body) (hbody' : types'.get (ρ id) = .ok (body.rename ρ))
    (hnames : ∀ target ∈ body.mentions, types'.nameOf (ρ target) = types.nameOf target)
    (hfault : (declarationText types indentation id).fault = none)
    (hfault' : (declarationText types' indentation (ρ id)).fault = none) :
    (declarationText types' indentation (ρ id)).text =
      (declarationText types indentation id).text := by
  have hd := declarationText_spells types indentation id
  have hd' := declarationText_spells types' indentation (ρ id)
  rw [declarationPieces_of_get hbody] at hd
  rw [declarationPieces_of_get hbody', definitionPieces_rename] at hd'
  refine text_eq_of_spells hd hd' hfault hfault' fun target count ht => hnames target ?_
  rw [tokensOf_definitionPieces] at ht
  obtain ⟨ty, hty, ht⟩ := List.mem_flatMap.mp ht
  exact List.mem_flatMap_of_mem hty (mem_mentions_of_reference ht)

/-- **Nor does the text of a wrapper.** -/
theorem wrapperText_rename {options : Options} {m : Method} {s : StructDef}
    (hs : types.get m.params = .ok (.struct s))
    (hs' : types'.get (ρ m.params) = .ok ((Definition.struct s).rename ρ))
    (hnames : ∀ target ∈ m.mentions, types'.nameOf (ρ target) = types.nameOf target)
    (hfault : (wrapperText types options m).fault = none)
    (hfault' : (wrapperText types' options (m.rename ρ)).fault = none) :
    (wrapperText types' options (m.rename ρ)).text = (wrapperText types options m).text := by
  have hd := wrapperText_spells types options m
  have hd' := wrapperText_spells types' options (m.rename ρ)
  have hpieces : wrapperPieces types' options (m.rename ρ) =
      (wrapperPieces types options m).map (Piece.rename ρ) := by
    have hparams : types'.get (m.rename ρ).params = .ok ((Definition.struct s).rename ρ) := hs'
    simp only [wrapperPieces, hs, hparams, Definition.rename, StructDef.requiredFields,
      requiredFields_rename, wrapperBodyPieces_rename]
  rw [hpieces] at hd'
  refine text_eq_of_spells hd hd' hfault hfault' fun target count ht => hnames target ?_
  rw [tokensOf_wrapperPieces hs] at ht
  obtain ⟨ty, hty, ht⟩ := List.mem_flatMap.mp ht
  rw [m.mentions_eq_flatMap]
  exact List.mem_flatMap_of_mem hty (mem_mentions_of_reference ht)

end Texts

end Bindings

end WireContract
