import WireContract.Proofs.Bindings.PhraseText
import WireContract.Proofs.Wire.Concurrence

/-!
# What the text of a type means

The client code and the check walk the same types, each in its own way. They agree in this: the text
that a type is written with says which values the type takes and what it makes of them. Types with
the same text may be different, but only in ways that no value tells.

* `fault_of_finished`: a text that is written to its end has no fault;
* `check_of_text`: so they take the same values.
-/

namespace WireContract.Bindings

open Wire (Concurs checkFrom)

/-- A draft that comes to its end with a text has no fault. -/
theorem fault_of_finished {d : Draft} {text : String} (h : d.finished = .ok text) :
    d.fault = none ∧ d.text = text := by
  unfold Draft.finished at h
  cases hfault : d.fault with
  | none =>
    rw [hfault] at h
    exact ⟨rfl, Except.ok.inj h⟩
  | some fault =>
    rw [hfault] at h
    cases h

/-- **The text of a type says what the type takes.** Where names and values are told from each other
    by their text, two types that are written with the same text take the same values and make the
    same of them, as far as the check comes to an end with both. -/
theorem check_of_text {types : TypeTable} {ty other : Ty}
    (h : Legible types (ty.parts ++ other.parts)) {text : String}
    (hty : (typeText types ty).finished = .ok text)
    (hother : (typeText types other).finished = .ok text) (level : Nat) (v : Json)
    (path : Wire.Path) :
    Concurs (checkFrom types level ty v path) (checkFrom types level other v path) := by
  obtain ⟨hfault, htext⟩ := fault_of_finished hty
  obtain ⟨hfault', htext'⟩ := fault_of_finished hother
  have hsound := (typeText_completes types ty).fault_iff.mp hfault
  have hsound' := (typeText_completes types other).fault_iff.mp hfault'
  have hphrase := phrase_eq_of_text_eq h hsound hsound' (htext.trans htext'.symm)
  exact Wire.check_concurs types _ hphrase v path

/-- A box around one item, and a table with its definition. -/
def box : StructDef where
  name := "Box"
  generics := ["T"]
  fields := [{ name := "item", ty := .generic "T" }]

def boxTypes : TypeTable where
  slots := [.defined (.struct box)]

/-- Two of the types that are written alike: a box that may be left out, with a list, with nothing
    and with one of some values in it. -/
def optionalBox : Ty :=
  .optional (.named 0 [.tuple [.array (.generic "U"), .null, .literals [.bool true, .string "a"]]])

def unionBox : Ty :=
  .union [.named 0 [.tuple [.variadic (.generic "U"), .literals [.null],
    .literals [.bool true, .string "a"]]], .absent]

theorem legible_boxes : Legible boxTypes (optionalBox.parts ++ unionBox.parts) where
  built := .insert .empty (.struct box) 0 boxTypes .empty rfl
  names := by decide
  parameters name hname := by
    obtain rfl : name = "U" := by
      simpa [optionalBox, unionBox, Ty.null, Ty.tuple, Ty.array, Ty.variadic, Ty.parts,
        Ty.partsOfAll] using hname
    decide
  printing := by
    have hvalues : ∀ v, (Token.literal v).StandsIn (optionalBox.parts ++ unionBox.parts) →
        v = .null ∨ v = .bool true ∨ v = .string "a" := by
      rintro v (rfl | ⟨values, hpart, hv⟩)
      · exact .inl rfl
      · simp only [optionalBox, unionBox, Ty.null, Ty.tuple, Ty.array, Ty.variadic, Ty.parts,
          Ty.partsOfAll, List.cons_append, List.nil_append, List.append_nil, List.mem_cons,
          List.not_mem_nil, reduceCtorEq, Ty.literals.injEq, false_or, or_false] at hpart
        rcases hpart with rfl | rfl | rfl
        · exact .inr (by simpa using hv)
        · exact .inl (by simpa using hv)
        · exact .inr (by simpa using hv)
    intro v w hv hw heq
    rcases hvalues v hv with rfl | rfl | rfl <;> rcases hvalues w hw with rfl | rfl | rfl <;>
      first | rfl | exact absurd heq (by decide)

/-- A box as it may arrive, and as it is meant. -/
def arrived : Json :=
  .object [("size", .number (.integer 3)),
    ("item", .array [.array [.bool false], .null, .string "a"])]

def meant : Json :=
  .object [("item", .array [.array [.bool false], .null, .string "a"])]

theorem check_of_text_boxes :
    Legible boxTypes (optionalBox.parts ++ unionBox.parts) ∧ optionalBox ≠ unionBox ∧
    (typeText boxTypes optionalBox).finished =
      .ok "((Box<[(U)[], null, true|\"a\"]>)|(undefined))" ∧
    (typeText boxTypes unionBox).finished =
      .ok "((Box<[(U)[], null, true|\"a\"]>)|(undefined))" ∧
    checkFrom boxTypes 0 optionalBox arrived [] = .ok meant ∧
    checkFrom boxTypes 0 unionBox arrived [] = .ok meant ∧
    ∀ level v path, Concurs (checkFrom boxTypes level optionalBox v path)
      (checkFrom boxTypes level unionBox v path) :=
  ⟨legible_boxes, nofun, rfl, rfl, rfl, rfl, check_of_text legible_boxes rfl rfl⟩

end WireContract.Bindings
