import WireContract.Proofs.Bindings.Emission
import WireContract.Proofs.Wire.Omission
import WireContract.Wire.Codec

/-!
# Marks for what may be left out

Client code marks a field that may be left out with a question mark, and parameters that may all be
left out with a default. The check does not read the marks; that they say what it does is shown
here.

* `Tells`: of two marks behind a head, the one that stands there tells whether something holds;
* `fieldText_tells`, `wrapperText_tells`: what the marks of a field and of a wrapper tell;
* `marks_tell_acceptance`: they tell what is accepted.
-/

namespace WireContract.Bindings

open Draft Wire

/-! ## 1. Marks -/

/-- Behind its head the text goes on with one of two marks, and with the first one exactly if the
    proposition holds. -/
structure Tells (text head mark plain : String) (p : Prop) : Prop where
  marked : p ↔ ∃ rest, text = head ++ mark ++ rest
  unmarked : ¬ p ↔ ∃ rest, text = head ++ plain ++ rest

/-- Two marks that start with different characters are not at one place. -/
theorem not_both {head mark plain : String} {c d : Char} {cs ds : List Char}
    (hmark : mark.toList = c :: cs) (hplain : plain.toList = d :: ds) (hcd : c ≠ d)
    (rest other : String) : head ++ mark ++ rest ≠ head ++ plain ++ other := by
  intro h
  have hchars := congrArg String.toList h
  simp only [String.toList_append, List.append_assoc, hmark, hplain] at hchars
  exact hcd (List.cons.inj (List.append_cancel_left hchars)).1

theorem Tells.of_ite {text head mark plain : String} {c d : Char} {cs ds : List Char}
    {p : Prop} [Decidable p] (hmark : mark.toList = c :: cs) (hplain : plain.toList = d :: ds)
    (hcd : c ≠ d) (h : ∃ rest, text = head ++ (if p then mark else plain) ++ rest) :
    Tells text head mark plain p := by
  obtain ⟨rest, h⟩ := h
  by_cases hp : p
  · rw [if_pos hp] at h
    refine ⟨iff_of_true hp ⟨rest, h⟩, iff_of_false (not_not_intro hp) ?_⟩
    rintro ⟨other, hother⟩
    exact not_both hmark hplain hcd rest other (h.symm.trans hother)
  · rw [if_neg hp] at h
    refine ⟨iff_of_false hp ?_, iff_of_true hp ⟨rest, h⟩⟩
    rintro ⟨other, hother⟩
    exact not_both hmark hplain hcd other rest (hother.symm.trans h)

theorem Tells.congr {text head mark plain : String} {p q : Prop}
    (h : Tells text head mark plain p) (hpq : p ↔ q) : Tells text head mark plain q := by
  rwa [← propext hpq]

/-! ## 2. Fields and wrappers -/

/-- Whether what is written of a draft starts with a text. -/
def Starts (d : Draft) (head : String) : Prop := ∃ rest, d.text = head ++ rest

/-- What a draft starts with stays at its front, whatever is put behind it. -/
theorem Starts.append {d : Draft} {head : String} (h : Starts d head) (other : Draft) :
    Starts (d ++ other) head := by
  obtain ⟨rest, hrest⟩ := h
  obtain ⟨more, hmore⟩ := exists_append_text d other
  exact ⟨rest ++ more, by rw [hmore, hrest, String.append_assoc]⟩

/-- The mark of a field stands behind its name, whether the type can be written or not. -/
theorem fieldText_tells (types : TypeTable) (f : Field) :
    Tells (fieldText types f).text (memberName f.name) "?: " ": " (f.shape.2 = true) := by
  refine Tells.of_ite rfl rfl (by decide) ?_
  have hstart : Starts
      (write (memberName f.name) ++ write (if f.shape.2 then "?: " else ": "))
      (memberName f.name ++ (if f.shape.2 = true then "?: " else ": ")) :=
    ⟨"", String.append_empty.symm⟩
  exact (hstart.append (typeText types f.shape.1)).append (write ";")

/-- A reference to a definition without parameters is written as its name. -/
theorem typeText_reference {types : TypeTable} {id : DefId} {body : Definition}
    (hbody : types.get id = .ok body) (hgenerics : body.generics.length = 0) :
    typeText types (.reference id) = mention id ++ write body.name ++ empty := by
  simp [Ty.reference, typeText, typeTexts, referenceText, hbody, hgenerics]

/-- What a wrapper is written with in front of the default of its parameters. -/
def wrapperHead (m : Method) (parameters : StructDef) : String :=
  (comment m.doc "").text ++ ("export async function " ++ m.name ++ "(parameters: ") ++
    parameters.name

/-- The default of the parameters stands behind their type. -/
theorem wrapperText_tells {types : TypeTable} (options : Options) {m : Method} {s : StructDef}
    (hs : types.get m.params = .ok (.struct s)) (hgenerics : s.generics.length = 0) :
    Tells (wrapperText types options m).text (wrapperHead m s) " = \x7b\x7d): Promise<"
      "): Promise<" (s.requiredFields = 0) := by
  refine Tells.of_ite rfl rfl (by decide) ?_
  have hcomment : (comment m.doc "").fault = none :=
    (comment_completes m.doc "").fault_iff.mpr trivial
  have hmark : (if (s.requiredFields == 0) = true then " = \x7b\x7d" else "") ++ "): Promise<" =
      if s.requiredFields = 0 then " = \x7b\x7d): Promise<" else "): Promise<" := by
    by_cases hnone : s.requiredFields = 0 <;> simp [hnone]
  -- Up to the result type nothing can fail, so that the text is known; what follows may fail.
  have hstart : Starts
      (comment m.doc "" ++ write ("export async function " ++ m.name ++ "(parameters: ") ++
        typeText types (.reference m.params) ++
        write (if (s.requiredFields == 0) = true then " = \x7b\x7d" else "") ++
        write ("): Promise<" ++ options.resultType ++ "<"))
      (wrapperHead m s ++
        (if s.requiredFields = 0 then " = \x7b\x7d): Promise<" else "): Promise<")) := by
    refine ⟨options.resultType ++ "<", ?_⟩
    rw [typeText_reference hs hgenerics, ← hmark]
    simp [append_def, append, hcomment, write, mention, empty, wrapperHead, Definition.name,
      String.append_assoc]
  rw [wrapperText, hs]
  exact ((((hstart.append _).append _).append _).append _).append _

/-! ## 3. Acceptance -/

/-- The parameters of a method that is written take no arguments. -/
theorem parameters_of_isWritable {r : Registry} (h : IsWritable r) {m : Method}
    (hm : m ∈ r.methods) :
    ∃ s, r.types.get m.params = .ok (.struct s) ∧ s.generics.length = 0 := by
  obtain ⟨⟨s, hs⟩, hsound⟩ := h.methods m hm
  have hparams : (Ty.reference m.params).IsSound r.types := hsound _ List.mem_cons_self
  obtain ⟨⟨body, hbody, hlen⟩, -⟩ := Ty.isSound_named_iff.mp hparams
  obtain rfl : Definition.struct s = body := Except.ok.inj (hs.symm.trans hbody)
  exact ⟨s, hs, hlen.symm⟩

/-- A body without members is accepted exactly if no parameter has to be there. -/
theorem decode_nil_accepted_iff {types : TypeTable} {codec : Codec} {s : StructDef}
    (hs : types.get codec.params = .ok (.struct s)) (hgenerics : s.generics.length = 0) :
    Accepted (codec.decode types [0x7b, 0x7d]) ↔ s.requiredFields = 0 := by
  have hread : Json.read [0x7b, 0x7d] = .ok (.object []) := rfl
  rw [Codec.decode, hread]
  dsimp only
  rw [Codec.arguments, hs]
  exact checkFields_nil_accepted_iff.trans (and_iff_right hgenerics)

/-- **The marks tell what is accepted.** A field is marked with a question mark exactly if an object
    that is accepted stays so without it, where the struct is taken apart and where a reference to
    it stands; and the parameters of a wrapper have a default exactly if the method accepts a body
    without members. -/
theorem marks_tell_acceptance :
    (∀ (types : TypeTable) (s : StructDef) args level (object : Entries Json) path,
      s.FieldsDistinct → ∀ f ∈ s.fields,
      Accepted (checkFields (checkFrom types level) s args (.object object) path) →
      Tells (fieldText types f).text (memberName f.name) "?: " ": "
        (Accepted (checkFields (checkFrom types level) s args
          (.object (object.erase f.name)) path))) ∧
    (∀ (types : TypeTable) target s args level (object : Entries Json) path,
      types.get target = .ok (.struct s) → s.FieldsDistinct → ∀ f ∈ s.fields,
      Accepted (checkFrom types level (.named target args) (.object object) path) →
      Tells (fieldText types f).text (memberName f.name) "?: " ": "
        (Accepted (checkFrom types level (.named target args)
          (.object (object.erase f.name)) path))) ∧
    ∀ (r : Registry) (options : Options) b, generate r options = .ok b →
      ∀ (i : Nat) (m : Method), r.methods[i]? = some m →
      ∃ text s, b.wrappers[i]? = some text ∧ r.types.get m.params = .ok (.struct s) ∧
        Tells text (wrapperHead m s) " = \x7b\x7d): Promise<" "): Promise<"
          (Accepted (m.decode r.types [0x7b, 0x7d])) := by
  refine ⟨fun types s args level object path hs f hf h => ?_,
    fun types target s args level object path htarget hs f hf h => ?_,
    fun r options b h i m hm => ?_⟩
  · exact (fieldText_tells types f).congr (checkFields_erase_accepted_iff hs h hf).symm
  · exact (fieldText_tells types f).congr (check_erase_accepted_iff htarget hs h hf).symm
  · have hmem : m ∈ r.methods := List.mem_of_getElem? hm
    obtain ⟨s, hs, hgenerics⟩ := parameters_of_isWritable (isWritable_of_generate h) hmem
    have hwrappers : b.wrappers = r.methods.map fun m => (wrapperText r.types options m).text := by
      rw [(generate_completes h).2.2]
      rfl
    refine ⟨_, s, by rw [hwrappers, List.getElem?_map, hm]; rfl, hs, ?_⟩
    exact (wrapperText_tells options hs hgenerics).congr (decode_nil_accepted_iff hs hgenerics).symm

/-- The field of a page in the forest that leads to the next page. -/
def nextPage : Field := { name := "next", ty := .optional (.named 3 [.generic "T"]) }

theorem marks_tell_acceptance_forest :
    (∃ s rest, forest.types.get 3 = .ok (.struct s) ∧ nextPage ∈ s.fields ∧
      (fieldText forest.types nextPage).text = memberName "next" ++ "?: " ++ rest) ∧
    ∃ b m s text rest, generate forest {} = .ok b ∧ forest.methods[0]? = some m ∧
      forest.types.get m.params = .ok (.struct s) ∧ b.wrappers[0]? = some text ∧
      text = wrapperHead m s ++ "): Promise<" ++ rest := by
  obtain ⟨hfields, -, hwrappers⟩ := marks_tell_acceptance
  constructor
  · obtain ⟨s, hs, hnext, hdistinct, haccepted, herased⟩ : ∃ s,
        forest.types.get 3 = .ok (.struct s) ∧ nextPage ∈ s.fields ∧ s.FieldsDistinct ∧
        Accepted (checkFields (checkFrom forest.types 0) s [.any]
          (.object [("items", .array []), ("next", .object [("items", .array [])])]) []) ∧
        Accepted (checkFields (checkFrom forest.types 0) s [.any]
          (.object [("items", .array [])]) []) :=
      ⟨_, rfl, List.mem_cons_of_mem _ List.mem_cons_self, by decide, ⟨_, rfl⟩, ⟨_, rfl⟩⟩
    have htells := hfields forest.types s [.any] 0 _ [] hdistinct nextPage hnext haccepted
    obtain ⟨rest, hrest⟩ := htells.marked.mp herased
    exact ⟨s, rest, hs, hnext, hrest⟩
  · obtain ⟨b, hb⟩ : ∃ b, generate forest {} = .ok b := ⟨_, rfl⟩
    obtain ⟨m, hm, hrefused⟩ : ∃ m, forest.methods[0]? = some m ∧
        ¬ Accepted (m.decode forest.types [0x7b, 0x7d]) :=
      ⟨_, rfl, not_accepted_error (.missing [] "root")⟩
    obtain ⟨text, s, htext, hs, htells⟩ := hwrappers forest {} b hb 0 m hm
    obtain ⟨rest, hrest⟩ := htells.unmarked.mp hrefused
    exact ⟨b, m, s, text, rest, hb, hm, hs, htext, hrest⟩

end WireContract.Bindings
