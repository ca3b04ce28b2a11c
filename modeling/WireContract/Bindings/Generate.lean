import WireContract.Bindings.Declaration
import WireContract.Bindings.Worklist

/-!
# Client bindings for a registry

The wrappers are written first, in order of registration; what they mention is declared next, and
what those declarations mention after them, batch by batch, until a batch mentions nothing new.
The first fault, in the order of writing, is the outcome of the whole. But one level of indentation
is made before anything else, and if it is longer than any text can be, the program ends there.

* `generate`: the blocks of the client code, or why there are none;
* `generate_eq_ok_iff`: there are blocks if the options fit and no fault is met;
* `Bindings.text`: preamble, declarations and wrappers laid out as one text.
-/

namespace WireContract

/-- The blocks of the client code: the declarations with the numbers of their definitions, and the
    wrappers. -/
structure Bindings where
  declarations : List (DefId × String)
  wrappers : List String
  deriving DecidableEq, Repr

namespace Bindings

/-! ## 1. Writing the blocks -/

/-- What is written so far. -/
structure Progress where
  worklist : Worklist := {}
  blocks : Bindings := ⟨[], []⟩
  deriving Repr

/-- The wrappers of methods, one after another. -/
def writeWrappers (types : TypeTable) (options : Options) :
    List Method → Progress → Except SchemaFault Progress
  | [], p => .ok p
  | m :: rest, p =>
    let d := wrapperText types options m
    match d.fault with
    | some fault => .error fault
    | none =>
      writeWrappers types options rest
        { worklist := p.worklist.discoverAll d.mentions
          blocks := { p.blocks with wrappers := p.blocks.wrappers ++ [d.text] } }

/-- The declarations of a batch, one after another. -/
def writeBatch (types : TypeTable) (indentation : String) :
    List DefId → Progress → Except SchemaFault Progress
  | [], p => .ok p
  | id :: rest, p =>
    let d := declarationText types indentation id
    match d.fault with
    | some fault => .error fault
    | none =>
      writeBatch types indentation rest
        { worklist := p.worklist.discoverAll d.mentions
          blocks := { p.blocks with declarations := p.blocks.declarations ++ [(id, d.text)] } }

/-- Batches of declarations until none is waiting, at most `limit` of them. -/
def resolve (types : TypeTable) (indentation : String) :
    Nat → Progress → Except SchemaFault Progress
  | 0, p => .ok p
  | limit + 1, p =>
    let (batch, worklist) := p.worklist.takeBatch
    if batch.isEmpty then .ok p
    else
      match writeBatch types indentation batch { p with worklist } with
      | .error fault => .error fault
      | .ok p => resolve types indentation limit p

/-- The blocks under options that fit. Every batch that is not empty declares a definition for the
    first time, so that there are no more batches than definitions. -/
def writeBlocks (r : Registry) (options : Options) : Except SchemaFault Bindings := do
  let p ← writeWrappers r.types options r.methods {}
  let p ← resolve r.types options.indentation r.types.size p
  return p.blocks

/-- Why there is no client code. -/
inductive Failure where
  | schema (fault : SchemaFault)
  /-- One level of indentation is no text. This is not reported: the program ends. -/
  | overflow
  deriving DecidableEq, Repr

/-- The words for a failure; those for an overflow are the last ones of the program. -/
def Failure.message : Failure → String
  | .schema fault => fault.message
  | .overflow => "capacity overflow"

/-- The client code of a registry. -/
def generate (r : Registry) (options : Options) : Except Failure Bindings :=
  if options.Fits then (writeBlocks r options).mapError .schema else .error .overflow

section Outcomes

variable {r : Registry} {options : Options}

theorem generate_of_fits (h : options.Fits) :
    generate r options = (writeBlocks r options).mapError .schema := if_pos h

theorem generate_of_not_fits (h : ¬ options.Fits) : generate r options = .error .overflow :=
  if_neg h

theorem generate_eq_ok_iff {b : Bindings} :
    generate r options = .ok b ↔ options.Fits ∧ writeBlocks r options = .ok b := by
  by_cases h : options.Fits
  · rw [generate_of_fits h]
    cases writeBlocks r options with
    | error fault => exact iff_of_false nofun fun hb => nomatch hb.2
    | ok found =>
      constructor
      · intro hb
        obtain rfl := Except.ok.inj hb
        exact ⟨h, rfl⟩
      · rintro ⟨-, hb⟩
        obtain rfl := Except.ok.inj hb
        rfl
  · rw [generate_of_not_fits h]
    exact iff_of_false nofun fun hb => h hb.1

theorem generate_eq_overflow_iff : generate r options = .error .overflow ↔ ¬ options.Fits := by
  by_cases h : options.Fits
  · rw [generate_of_fits h]
    refine iff_of_false ?_ (not_not_intro h)
    cases writeBlocks r options <;> exact nofun
  · exact iff_of_true (generate_of_not_fits h) h

theorem fits_of_generate {b : Bindings} (h : generate r options = .ok b) : options.Fits :=
  (generate_eq_ok_iff.mp h).1

end Outcomes

/-! ## 2. Layout -/

/-- Parts of a text, the empty ones left out: an empty line between two, and a line feed at the
    end of each. -/
def layOut (parts : List String) : String :=
  parts.foldl place ""
where
  place (text part : String) : String :=
    if part.isEmpty then text
    else
      (if text.isEmpty then text else text ++ "\n") ++ part ++
        (if part.toList.getLast? = some '\n' then "" else "\n")

/-- The client code as one text. -/
def text (b : Bindings) (options : Options) : String :=
  layOut
    [String.ofList (Text.trimEnd options.preamble.toList),
     String.intercalate "\n" (b.declarations.map (·.2)),
     String.intercalate "\n" b.wrappers]

end Bindings

end WireContract
