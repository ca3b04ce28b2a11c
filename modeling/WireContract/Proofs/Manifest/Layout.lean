import WireContract.Proofs.Bindings.Layout
import WireContract.Proofs.Bindings.Settings
import WireContract.Proofs.Manifest.Names

/-!
# The client code of manifests falls into its blocks

What is written for manifests can be taken apart again: cut at its empty lines, the text gives the
declarations in the order in which they were discovered, and behind them the wrappers in the order
in which the methods were registered. No documentation, value or name of a field in the manifests
changes that.

* `isPart_declaration`, `isPart_wrapper`: blocks have no empty line;
* `HasBlocks`, `hasBlocks`: which blocks there are;
* `merged_layout`: how they stand in the text.
-/

namespace WireContract

namespace Bindings

open Draft
open Text (isBlank isIdentifier trimEnd)

section Blocks

variable {r : Registry} {settings : Options} {b : Bindings}

/-! ## 1. Blocks -/

/-- Whether a block begins with the comment of its documentation, and goes on with a heading. -/
def Begins (doc : Option String) (heading block : String) : Prop :=
  ∃ rest, block = (comment doc "").text ++ heading ++ rest

theorem begins_of_prefix {doc : Option String} {heading block : String}
    (h : (comment doc "").text.toList ++ heading.toList <+: block.toList) :
    Begins doc heading block := by
  obtain ⟨rest, hrest⟩ := h
  refine ⟨String.ofList rest, String.toList_inj.mp ?_⟩
  simp [← hrest]

theorem Begins.ne_empty {doc : Option String} {heading block : String}
    (h : Begins doc heading block) (hne : heading ≠ "") : block ≠ "" := by
  obtain ⟨rest, rfl⟩ := h
  simp [hne]

/-- The names and values of what is declared fit into lines. -/
theorem fitsLines (hbuilt : r.types.Built) (hclosed : r.IsClosed) (h : IsWritable r) {id : DefId}
    (hid : r.Reaches id) {body : Definition} (hbody : r.types.get id = .ok body) :
    FitsLines r.types body := by
  obtain ⟨⟨found, hfound, hsound⟩, -⟩ := h.definitions id hid
  obtain rfl := Except.ok.inj (hbody.symm.trans hfound)
  have hbare := hbuilt.bareNames hbody
  refine ⟨fun ty hty => ?_, hsound.constants, ?_, hbare⟩
  · refine newline_not_mem_typePieces hbuilt (hsound.expressions ty hty) fun name hname => ?_
    have hscoped := (hclosed.bodies id body hbody).expressions ty hty
    have hmem := mem_of_parameter_mem_typeTokens hscoped hname
    exact hbare name (body.generics_subset_bareNames hmem)
  · exact hbuilt.isIdentifier _ (List.mem_of_getElem? (TypeTable.getElem?_names_of_get hbody))

theorem begins_declaration (h : generate r settings = .ok b) {d : DefId × String}
    (hd : d ∈ b.declarations) : ∃ body, r.types.get d.1 = .ok body ∧
      Begins (documentation body) (introduction body ++ body.name) d.2 := by
  obtain ⟨body, -, hbody, -, htext⟩ := exists_of_mem_declarations h hd
  refine ⟨body, hbody, begins_of_prefix ?_⟩
  rw [htext]
  exact prefix_definitionPieces _ _ _

theorem introduction_ne_empty (body : Definition) : introduction body ++ body.name ≠ "" := by
  cases body <;> simp [introduction]

theorem isPart_declaration (hbuilt : r.types.Built) (hclosed : r.IsClosed)
    (h : generate r settings = .ok b) {d : DefId × String} (hd : d ∈ b.declarations) :
    IsPart d.2 := by
  obtain ⟨body, hid, hbody, -, htext⟩ := exists_of_mem_declarations h hd
  obtain ⟨found, -, hbegins⟩ := begins_declaration h hd
  refine ⟨?_, hbegins.ne_empty (introduction_ne_empty found)⟩
  rw [htext]
  exact isBlock_definitionPieces (newline_not_mem_indentation settings)
    (fitsLines hbuilt hclosed (isWritable_of_generate h) hid hbody)

theorem wrappers_eq (h : generate r settings = .ok b) :
    b.wrappers = r.methods.map fun m => (wrapperText r.types settings m).text := by
  obtain ⟨-, -, rfl⟩ := generate_completes h
  rfl

theorem exists_toList_wrapperText (h : generate r settings = .ok b) {m : Method}
    (hm : m ∈ r.methods) : ∃ omissible, (wrapperText r.types settings m).text.toList =
      written r.types (wrapperBodyPieces settings m omissible) := by
  obtain ⟨hmethods, -, -⟩ := generate_completes h
  obtain ⟨⟨s, hs⟩, -⟩ := (isWritable_of_generate h).methods m hm
  have htext := wrapperText_spells r.types settings m (hmethods m hm)
  simp only [wrapperPieces, hs] at htext
  exact ⟨_, htext⟩

theorem begins_wrapper (h : generate r settings = .ok b) {m : Method} (hm : m ∈ r.methods) :
    Begins m.doc ("export async function " ++ m.name) (wrapperText r.types settings m).text := by
  obtain ⟨omissible, htext⟩ := exists_toList_wrapperText h hm
  refine begins_of_prefix ?_
  rw [htext]
  exact prefix_wrapperBodyPieces _ _ _ _

theorem isPart_wrapper (hbuilt : r.types.Built) (hclosed : r.IsClosed)
    (hnames : ∀ m ∈ r.methods, isIdentifier m.name = true)
    (hdispatch : '\n' ∉ settings.dispatch.toList) (hresult : '\n' ∉ settings.resultType.toList)
    (h : generate r settings = .ok b) {m : Method} (hm : m ∈ r.methods) :
    IsPart (wrapperText r.types settings m).text := by
  obtain ⟨omissible, htext⟩ := exists_toList_wrapperText h hm
  refine ⟨?_, (begins_wrapper h hm).ne_empty (by simp)⟩
  rw [htext]
  refine isBlock_wrapperBodyPieces hdispatch hresult (hnames m hm) (fun ty hty => ?_) omissible
  have hsound := ((isWritable_of_generate h).methods m hm).2 ty hty
  refine newline_not_mem_typePieces hbuilt hsound fun name hname => ?_
  exact absurd hname (parameter_not_mem_method hclosed hm hty name)

/-- Which blocks the client code has: a declaration for every definition that is discovered, in that
    order, and a wrapper for every method, each directly below its comment. -/
structure HasBlocks (r : Registry) (b : Bindings) : Prop where
  order : b.declarations.map (·.1) = (List.range r.types.size).flatMap r.wave
  declarations : ∀ d ∈ b.declarations, ∃ body, r.types.get d.1 = .ok body ∧
    Begins (documentation body) (introduction body ++ body.name) d.2
  wrappers : List.Forall₂
    (fun m wrapper => Begins m.doc ("export async function " ++ m.name) wrapper)
    r.methods b.wrappers

theorem hasBlocks (h : generate r settings = .ok b) : HasBlocks r b where
  order := by
    rw [declarations_eq h (Nat.le_refl _), List.map_map]
    exact List.map_id _
  declarations _ hd := begins_declaration h hd
  wrappers := by
    rw [wrappers_eq h, List.forall₂_map_right_iff, List.forall₂_same]
    exact fun m hm => begins_wrapper h hm

/-! ## 2. The text -/

/-- The settings without a preamble. -/
def Options.bare (settings : Options) : Options := { settings with preamble := "" }

/-- The blocks of client code, as they stand in the text. -/
def blocks (b : Bindings) : List String := b.declarations.map (·.2) ++ b.wrappers

theorem isPart_blocks (hbuilt : r.types.Built) (hclosed : r.IsClosed)
    (hnames : ∀ m ∈ r.methods, isIdentifier m.name = true)
    (hdispatch : '\n' ∉ settings.dispatch.toList) (hresult : '\n' ∉ settings.resultType.toList)
    (h : generate r settings = .ok b) : ∀ block ∈ b.blocks, IsPart block := by
  refine List.forall_mem_append.mpr ⟨List.forall_mem_map.mpr fun d hd => ?_, ?_⟩
  · exact isPart_declaration hbuilt hclosed h hd
  · rw [wrappers_eq h]
    exact List.forall_mem_map.mpr fun m hm =>
      isPart_wrapper hbuilt hclosed hnames hdispatch hresult h hm

/-- Without a preamble the text is that of the declarations and the wrappers. -/
theorem text_eq_layOut (hpreamble : trimEnd settings.preamble.toList = []) :
    b.text settings = layOut [String.intercalate "\n" (b.declarations.map (·.2)),
      String.intercalate "\n" b.wrappers] := by
  rw [text, hpreamble, String.ofList_nil, layOut_empty_cons]

/-- If these are made of blocks, it is the row of all blocks. -/
theorem text_of_isBlank (hpreamble : ∀ c ∈ settings.preamble.toList, isBlank c = true)
    (h : ∀ block ∈ b.blocks, IsPart block) :
    b.text settings = String.intercalate "\n" b.blocks := by
  obtain ⟨hdeclarations, hwrappers⟩ := List.forall_mem_append.mp h
  rw [text_eq_layOut (Text.trimEnd_eq_nil_iff.mpr hpreamble),
    layOut_intercalate hdeclarations hwrappers, blocks]

/-- The preamble is in none of the blocks. -/
theorem generate_bare (h : generate r settings = .ok b) : generate r settings.bare = .ok b := by
  have hfits := fits_of_generate h
  rcases generate_in_step r with ⟨fault, hfault⟩ | ⟨-, ids, hids⟩
  · cases (hfault settings hfits).symm.trans h
  · rw [hids settings.bare hfits, ← h, hids settings hfits]
    rfl

/-- A preamble stands above the text without one. -/
theorem text_eq_above (hpreamble : ¬ ∀ c ∈ settings.preamble.toList, isBlank c = true) :
    b.text settings = layOut.above (String.ofList (trimEnd settings.preamble.toList) ++ "\n")
      (b.text settings.bare) := by
  have hne : String.ofList (trimEnd settings.preamble.toList) ≠ "" := by
    rw [← Text.trimEnd_eq_nil_iff] at hpreamble
    simpa using hpreamble
  have hlast : (trimEnd settings.preamble.toList).getLast? ≠ some '\n' :=
    Text.getLast?_trimEnd_ne (by decide)
  have hrest : b.text settings.bare = _ := text_eq_layOut rfl
  rw [text, layOut_cons hne, layOut.place_start hne, String.toList_ofList, if_neg hlast, hrest]

/-- Without a method nothing is declared. -/
theorem declarations_eq_nil (h : generate r settings = .ok b) (hmethods : r.methods = []) :
    b.declarations = [] := by
  have hmentions : r.mentions = [] := by rw [Registry.mentions, hmethods]; rfl
  have hwave : wave r.mentions r.types.mentionsOf 0 = [] := by rw [hmentions]; rfl
  have hnone := declared_eq h
  rw [wavesBefore_eq_of_le hwave (Nat.zero_le _)] at hnone
  exact List.map_eq_nil_iff.mp hnone

theorem eq_empty_of_intercalate {separator text : String} {rest : List String}
    (h : String.intercalate separator (text :: rest) = "") : text = "" := by
  cases rest with
  | nil => rwa [String.intercalate_singleton] at h
  | cons next more =>
    rw [String.intercalate_cons_cons, String.append_eq_empty_iff, String.append_eq_empty_iff] at h
    exact h.1.1

/-- There is a text exactly where there is a method. -/
theorem text_eq_empty_iff (hpreamble : trimEnd settings.preamble.toList = [])
    (h : generate r settings = .ok b) : b.text settings = "" ↔ r.methods = [] := by
  rw [text_eq_layOut hpreamble, layOut_eq_empty_iff, List.forall_mem_cons,
    List.forall_mem_singleton]
  constructor
  · rintro ⟨-, hwrappers⟩
    rw [wrappers_eq h] at hwrappers
    cases hmethods : r.methods with
    | nil => rfl
    | cons m rest =>
      rw [hmethods, List.map_cons] at hwrappers
      have hm : m ∈ r.methods := by rw [hmethods]; exact List.mem_cons_self
      exact absurd (eq_empty_of_intercalate hwrappers) ((begins_wrapper h hm).ne_empty (by simp))
  · intro hmethods
    rw [declarations_eq_nil h hmethods, wrappers_eq h, hmethods]
    exact ⟨rfl, rfl⟩

end Blocks

end Bindings

namespace Manifest

open Bindings
open Text (isBlank trimEnd)

theorem registerAll_identifiers {r : Registry}
    (h : ∀ m ∈ r.methods, Text.isIdentifier m.name = true) (methods : List MethodDecl) :
    Yields (registerAll r methods) fun r' =>
      ∀ m ∈ r'.methods, Text.isIdentifier m.name = true := by
  induction methods generalizing r with
  | nil => exact .ok h
  | cons m rest ih =>
    unfold registerAll
    refine Yields.always.bind fun signature _ => ?_
    exact (ofSchema_yields (Registry.register_identifiers h signature)).bind
      fun registered hregistered => ih hregistered

/-- The methods of a manifest have identifiers for names. -/
theorem toRegistry_identifiers (m : Manifest) :
    Yields m.toRegistry fun result =>
      ∀ method ∈ result.1.methods, Text.isIdentifier method.name = true := by
  unfold toRegistry
  refine Yields.always.bind fun declared _ => Yields.always.bind fun types _ => ?_
  have hnone : ∀ method ∈ (Registry.ofTypes types).methods,
      Text.isIdentifier method.name = true := fun method hmethod => absurd hmethod List.not_mem_nil
  exact (registerAll_identifiers hnone m.methods).bind fun registry hregistry => .ok hregistry

/-- **The client code of manifests falls into its blocks.** Each of them stands directly below its
    comment. Without a preamble the text, cut at its empty lines, gives the declarations in the
    order of discovery and the wrappers in the order of registration; a preamble stands above it. -/
theorem merged_layout {ms : List Manifest} {r : Registry} {options settings : Bindings.Options}
    {b : Bindings} (h : (mergeAll .empty ms >>= toRegistry) = .ok (r, options))
    (hb : generate r settings = .ok b) :
    HasBlocks r b ∧ generate r settings.bare = .ok b ∧
      ('\n' ∉ settings.dispatch.toList → '\n' ∉ settings.resultType.toList →
        FallsInto (b.text settings.bare) b.blocks) ∧
      ((∀ c ∈ settings.preamble.toList, isBlank c = true) →
        b.text settings = b.text settings.bare) ∧
      ((¬ ∀ c ∈ settings.preamble.toList, isBlank c = true) → b.text settings =
        String.ofList (trimEnd settings.preamble.toList) ++ "\n" ++
          (if r.methods.isEmpty then "" else "\n" ++ b.text settings.bare)) := by
  have hbuilt : Yields (mergeAll .empty ms >>= toRegistry) fun result => result.1.types.Built :=
    Yields.always.bind fun m _ => m.toRegistry_built
  have hclosed : Yields (mergeAll .empty ms >>= toRegistry) fun result => result.1.IsClosed :=
    Yields.always.bind fun m _ => m.toRegistry_yields
  have hnames : Yields (mergeAll .empty ms >>= toRegistry) fun result =>
      ∀ method ∈ result.1.methods, Text.isIdentifier method.name = true :=
    Yields.always.bind fun m _ => m.toRegistry_identifiers
  have hbare : generate r settings.bare = .ok b := generate_bare hb
  have hnone : trimEnd settings.bare.preamble.toList = [] := rfl
  refine ⟨hasBlocks hb, hbare, fun hdispatch hresult => ?_, fun hpreamble => ?_,
    fun hpreamble => ?_⟩
  · have hparts := isPart_blocks (hbuilt _ h) (hclosed _ h) (hnames _ h) hdispatch hresult hb
    rw [text_of_isBlank (Text.trimEnd_eq_nil_iff.mp hnone) hparts]
    exact fallsInto_intercalate hparts
  · rw [text_eq_layOut (Text.trimEnd_eq_nil_iff.mpr hpreamble), text_eq_layOut hnone]
  · rw [text_eq_above hpreamble]
    by_cases hmethods : r.methods = []
    · rw [(text_eq_empty_iff hnone hbare).mpr hmethods, layOut.above_empty, hmethods]
      exact String.append_empty.symm
    · have hne : b.text settings.bare ≠ "" := fun hempty =>
        hmethods ((text_eq_empty_iff hnone hbare).mp hempty)
      rw [layOut.above_of_ne _ hne, if_neg (by simpa using hmethods), String.append_assoc]

/-- A documented struct with a field whose name has an empty line. -/
def letters : Manifest where
  types := [
    ("Letter", .struct (some "Ink,\n\non paper. */") [] [
      { name := "first\n\nline", ty := .bare "string" }])]

/-- A documented method that takes one, in another manifest. -/
def posting : Manifest where
  methods := [
    { name := "post"
      doc := some "Sends it."
      params := [{ name := "letter", ty := .ref "Letter" [] }]
      returns := .bare "null" }]

theorem merged_layout_letters :
    ∃ r b, (mergeAll .empty [letters, posting] >>= toRegistry) = .ok (r, {}) ∧
      generate r { preamble := "// \n\n" } = .ok b ∧ b.blocks.length = 3 ∧
      FallsInto (b.text {}) b.blocks ∧
      b.text { preamble := "// \n\n" } = "//\n\n" ++ b.text {} := by
  obtain ⟨r, b, h, hb, hlength, hmethods⟩ : ∃ r b,
      (mergeAll .empty [letters, posting] >>= toRegistry) = .ok (r, {}) ∧
        generate r { preamble := "// \n\n" } = .ok b ∧ b.blocks.length = 3 ∧
        r.methods.isEmpty = false :=
    ⟨_, _, rfl, rfl, rfl, rfl⟩
  obtain ⟨-, -, hblocks, -, hpreamble⟩ := merged_layout h hb
  have hfilled : ¬ ∀ c ∈ "// \n\n".toList, isBlank c = true := fun hall =>
    absurd (hall '/' (by decide)) (by decide)
  have hstart : trimEnd "// \n\n".toList = "//".toList := by decide
  refine ⟨r, b, h, hb, hlength, hblocks (by decide) (by decide), ?_⟩
  rw [hpreamble hfilled, hstart, String.ofList_toList, hmethods, if_neg Bool.false_ne_true,
    ← String.append_assoc]
  rfl

end Manifest

end WireContract
