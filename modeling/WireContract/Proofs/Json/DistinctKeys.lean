import WireContract.Json.Document
import WireContract.Json.Reader

/-!
# Objects with each key once

The members of an object are a list, and a list may hold a key twice. No text brings such an object:
what a reader has seen of a key that is repeated is written over.

* `KeysDistinct`: every object in a value, however deep, has each of its keys once;
* `read_keysDistinct`: what is read is of this kind.
-/

namespace WireContract

namespace Json

/-- Every object in the value, however deep, has each of its keys once. -/
inductive KeysDistinct : Json → Prop where
  | null : KeysDistinct .null
  | bool (b : Bool) : KeysDistinct (.bool b)
  | number (n : Json.Number) : KeysDistinct (.number n)
  | string (s : String) : KeysDistinct (.string s)
  | array (items : List Json) (h : ∀ v ∈ items, KeysDistinct v) : KeysDistinct (.array items)
  | object (members : List (String × Json)) (hkeys : (Entries.keys members).Nodup)
      (h : ∀ e ∈ members, KeysDistinct e.2) : KeysDistinct (.object members)

theorem keysDistinct_object_iff {members : Entries Json} :
    KeysDistinct (.object members) ↔
      members.keys.Nodup ∧ ∀ e ∈ members, KeysDistinct e.2 := by
  constructor
  · intro h
    cases h with
    | object _ hkeys h => exact ⟨hkeys, h⟩
  · exact fun h => .object members h.1 h.2

namespace Document

theorem Scalar.value_keysDistinct (s : Scalar) : s.value.KeysDistinct := by
  cases s <;> constructor

mutual

/-- **The value of a document has each key of an object once**, whatever the text repeats. -/
theorem value_keysDistinct (d : Document) : d.value.KeysDistinct := by
  cases d with
  | scalar s _ => exact Scalar.value_keysDistinct s
  | array _ items _ => exact .array _ (itemValues_keysDistinct items)
  | object _ members _ =>
    exact memberValues_keysDistinct members [] (.object [] List.nodup_nil (by simp))
  | broken _ => exact .null
  | unreached _ => exact .null

theorem itemValues_keysDistinct (items : List Document) :
    ∀ v ∈ itemValues items, KeysDistinct v := by
  cases items with
  | nil => exact fun v h => absurd h List.not_mem_nil
  | cons item rest =>
    exact List.forall_mem_cons.mpr ⟨value_keysDistinct item, itemValues_keysDistinct rest⟩

theorem memberValues_keysDistinct (members : List (String × Nat × Document))
    (done : Entries Json) (h : KeysDistinct (.object done)) :
    KeysDistinct (.object (memberValues members done)) := by
  cases members with
  | nil => exact h
  | cons m rest =>
    obtain ⟨key, at_, v⟩ := m
    obtain ⟨hkeys, hvalues⟩ := keysDistinct_object_iff.mp h
    refine memberValues_keysDistinct rest _ (.object _ (Entries.nodup_keys_put hkeys _ _) ?_)
    intro e he
    rcases Entries.mem_put he with he | rfl
    · exact hvalues e he
    · exact value_keysDistinct v

end

end Document

/-- What is read is the value of a document. -/
theorem exists_document_of_read {text : List UInt8} {v : Json} (h : read text = .ok v) :
    ∃ document : Document, v = document.value := by
  unfold read readWithin at h
  generalize readFirst depthLimit text = reading at h
  obtain ⟨document, stop⟩ := reading
  refine ⟨document, ?_⟩
  cases stop with
  | none =>
    cases hfault : document.fault? [] with
    | some fault => simp [hfault] at h
    | none => simpa [hfault, eq_comm] using h
  | some after =>
    dsimp only at h
    split at h
    · exact (Except.ok.inj h).symm
    · cases h

/-- **What is read has each key of an object once.** -/
theorem read_keysDistinct {text : List UInt8} {v : Json} (h : read text = .ok v) :
    v.KeysDistinct := by
  obtain ⟨document, rfl⟩ := exists_document_of_read h
  exact document.value_keysDistinct

end Json

end WireContract
