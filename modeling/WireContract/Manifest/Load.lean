import WireContract.Manifest.Reader
import WireContract.Manifest.Resolve

/-!
# Loading manifests

Manifests come as texts, one after another. Each is read and merged before the next one is looked
at, and the names in them are resolved when all are there; the first step that fails is the
outcome.

* `ofTexts`: the manifest that several texts make together;
* `load`: the registry they describe, and the options for its client code.
-/

namespace WireContract.Manifest

/-- A manifest with one more behind it. -/
def takeUp (m next : Manifest) : Except Fault Manifest :=
  match m.merge next with
  | .ok m => .ok m
  | .error name => .error (.duplicateType name)

/-- Manifests behind a first one, merged in order. -/
def mergeAll (m : Manifest) : List Manifest → Except Fault Manifest
  | [] => .ok m
  | next :: rest =>
    match m.takeUp next with
    | .ok m => mergeAll m rest
    | .error fault => .error fault

/-- A manifest with those of some texts behind it. -/
def readOnto (m : Manifest) : List (List UInt8) → Except Fault Manifest
  | [] => .ok m
  | text :: rest =>
    match read text with
    | .error fault => .error (.text fault)
    | .ok next =>
      match m.takeUp next with
      | .ok m => readOnto m rest
      | .error fault => .error fault

/-- The manifest that several texts make together. -/
def ofTexts (texts : List (List UInt8)) : Except Fault Manifest := readOnto .empty texts

/-- Reading and merging in turn is reading all and then merging, where all can be read. -/
theorem readOnto_eq_mergeAll (m : Manifest) (texts : List (List UInt8)) (ms : List Manifest)
    (h : texts.map read = ms.map Except.ok) : readOnto m texts = mergeAll m ms := by
  induction texts generalizing m ms with
  | nil =>
    cases ms with
    | nil => rfl
    | cons next others => simp at h
  | cons text rest ih =>
    cases ms with
    | nil => simp at h
    | cons next others =>
      simp only [List.map_cons, List.cons.injEq] at h
      obtain ⟨hread, hrest⟩ := h
      unfold readOnto mergeAll
      rw [hread]
      cases hm : m.takeUp next with
      | error fault => simp only [hm]
      | ok merged =>
        simp only [hm]
        exact ih merged others hrest

/-- The registry that several texts describe, and the options for its client code. -/
def load (texts : List (List UInt8)) : Except Fault (Registry × Bindings.Options) :=
  match ofTexts texts with
  | .ok m => m.toRegistry
  | .error fault => .error fault

end WireContract.Manifest
