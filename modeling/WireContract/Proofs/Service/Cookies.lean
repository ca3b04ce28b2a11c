import Mathlib.Data.List.Induction
import WireContract.Service.Credentials

/-!
# What a header and changes say of a name

The credentials of a header are built piece by piece, and changes are made one by one. Of both only
the last word on a name counts.

* `lastValue?`: the value in the last piece of a header that has a name;
  `get?_ofHeader`: that is what is read;
* `Change`, `Credentials.changed`: changes one after another;
  `get?_changed`, `queued_changed`: what they leave, and what the client is told of them.
-/

namespace WireContract.Service

namespace Credentials

/-! ## 1. Headers -/

/-- The name and the value that a piece of a header gives, if it is not empty. -/
def entryIn? (piece : List Char) : Option (String × String) :=
  if (nameAndValue piece).1.isEmpty && (nameAndValue piece).2.isEmpty then none
  else
    some (String.ofList (nameAndValue piece).1, String.ofList (unquote (nameAndValue piece).2))

/-- The value in the last piece of a header that has a name. -/
def lastValue? (name header : String) : Option String :=
  Entries.lastOf ((Text.segments ';' header.toList).filterMap entryIn?) name

theorem foldl_addPiece (values : Entries String) (pieces : List (List Char)) :
    pieces.foldl addPiece values =
      (pieces.filterMap entryIn?).foldl (fun es p => es.put p.1 p.2) values := by
  induction pieces generalizing values with
  | nil => rfl
  | cons piece rest ih =>
    rw [List.foldl_cons, ih, List.filterMap_cons, addPiece, entryIn?]
    rcases nameAndValue piece with ⟨front, back⟩
    cases hempty : front.isEmpty && back.isEmpty <;> simp only [hempty] <;> rfl

/-- **Of pieces with one name the last gives the value.** -/
theorem get?_ofHeader (name header : String) :
    (ofHeader header).get? name = lastValue? name header := by
  rw [get?, ofHeader, foldl_addPiece]
  exact Entries.get?_ofList _ name

/-- Nothing is queued by reading. -/
@[simp] theorem queued_ofHeader? (header : Option String) : (ofHeader? header).queued = [] := rfl

end Credentials

/-! ## 2. Changes -/

/-- A call that changes credentials: it gives a name a value, or clears it. -/
structure Change where
  name : String
  value : Option String
  deriving DecidableEq, Repr

/-- The change of the session. -/
def Change.session (value : Option String) : Change := ⟨Credentials.sessionName, value⟩

/-- The header that tells the client of a change. -/
def Change.header (x : Change) : String := Credentials.setCookie x.name (x.value.getD "")

/-- The last change of a name. -/
def lastChange? (name : String) (changes : List Change) : Option Change :=
  (changes.filter (·.name == name)).getLast?

theorem lastChange?_concat (name : String) (changes : List Change) (x : Change) :
    lastChange? name (changes ++ [x]) =
      if x.name = name then some x else lastChange? name changes := by
  unfold lastChange?
  by_cases h : x.name = name <;> simp [h]

theorem lastChange?_name {name : String} {changes : List Change} {x : Change}
    (h : lastChange? name changes = some x) : x.name = name := by
  have hmem := List.mem_filter.mp (List.mem_of_getLast? h)
  exact beq_iff_eq.mp hmem.2

theorem exists_lastChange? {name : String} {changes : List Change}
    (h : name ∈ changes.map (·.name)) : ∃ x, lastChange? name changes = some x := by
  obtain ⟨x, hx, rfl⟩ := List.mem_map.mp h
  have hne : changes.filter (·.name == x.name) ≠ [] :=
    List.ne_nil_of_mem (List.mem_filter.mpr ⟨hx, beq_self_eq_true _⟩)
  exact ⟨_, List.getLast?_eq_some_getLast hne⟩

namespace Credentials

/-- Credentials behind a change. -/
def change (c : Credentials) (x : Change) : Credentials := c.set x.name x.value

theorem setSession_eq_change (c : Credentials) (value : Option String) :
    c.setSession value = c.change (.session value) := rfl

/-- Credentials behind changes, one after another. -/
def changed (c : Credentials) (changes : List Change) : Credentials := changes.foldl change c

theorem changed_concat (c : Credentials) (changes : List Change) (x : Change) :
    c.changed (changes ++ [x]) = (c.changed changes).change x := by
  rw [changed, List.foldl_append]
  rfl

/-- **Every change is queued, in order.** -/
theorem queued_changed (c : Credentials) (changes : List Change) :
    (c.changed changes).queued = c.queued ++ changes.map Change.header := by
  induction changes using List.reverseRecOn with
  | nil => simp [changed]
  | append_singleton changes x ih =>
    rw [changed_concat, change, queued_set, ih, List.map_append, List.append_assoc]
    rfl

/-- **Of changes of one name the last counts.** -/
theorem get?_changed (c : Credentials) (changes : List Change) (name : String) :
    (c.changed changes).get? name =
      (lastChange? name changes).elim (c.get? name) Change.value := by
  induction changes using List.reverseRecOn with
  | nil => rfl
  | append_singleton changes x ih =>
    rw [changed_concat, change, lastChange?_concat]
    by_cases h : x.name = name
    · rw [if_pos h, ← h]
      cases hvalue : x.value <;> simp [hvalue]
    · rw [if_neg h, get?_set_of_ne _ _ _ _ (Ne.symm h), ih]

end Credentials

end WireContract.Service
