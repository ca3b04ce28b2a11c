import Mathlib.Algebra.GroupWithZero.Nat
import Mathlib.Data.List.DropRight
import Mathlib.Data.List.Induction
import WireContract.Proofs.Bindings.Emission

/-!
# The worklist as a queue

A worklist keeps what was handed out apart from what waits: a batch empties the one list and lets
the other grow, and a discovery has to look into both. Whatever is asked of a worklist and in
whatever order, the two in a row are one queue without repetition, in the order of first discovery.

* `Worklist.ask`: what a worklist answers to a row of calls, and what is left of it;
* `Worklist.Queues`: both lists in a row have every discovery once, and the first has those in front
  of the last batch; `queues_perform` for one call and `queues_behind` for any row of them;
* `Worklist.hands_out_once`: what the answers are.
-/

namespace WireContract.Bindings.Worklist

/-! ## 1. Calls and answers -/

/-- What a worklist is asked. -/
inductive Call where
  | discover (id : DefId)
  | takeBatch
  deriving Repr, DecidableEq

/-- What a worklist answers. -/
inductive Reply where
  | discovered (isNew : Bool)
  | batch (ids : List DefId)
  deriving Repr, DecidableEq

/-- The answer to a call, and the worklist behind it. -/
def perform (w : Worklist) : Call → Reply × Worklist
  | .discover id =>
    let (isNew, w) := w.discover id
    (.discovered isNew, w)
  | .takeBatch =>
    let (ids, w) := w.takeBatch
    (.batch ids, w)

/-- The answers to a row of calls, and the worklist behind them. -/
def ask (w : Worklist) : List Call → List Reply × Worklist
  | [] => ([], w)
  | call :: rest =>
    let (first, w) := w.perform call
    let (others, w) := ask w rest
    (first :: others, w)

/-- The definition that a call discovers. -/
def Call.discovery? : Call → Option DefId
  | .discover id => some id
  | .takeBatch => none

/-- The batch that an answer hands out. -/
def Reply.batch? : Reply → Option (List DefId)
  | .discovered _ => none
  | .batch ids => some ids

/-- What the calls discover, as often as they do. -/
def discoveries (calls : List Call) : List DefId :=
  calls.filterMap Call.discovery?

/-- The batches among the answers. -/
def batches (replies : List Reply) : List (List DefId) :=
  replies.filterMap Reply.batch?

/-- The calls up to the last one that takes a batch, and none if there is no such call. -/
def untilLastBatch (calls : List Call) : List Call :=
  calls.rdropWhile (· != .takeBatch)

section Calls

variable {w : Worklist} {calls : List Call} {call : Call} {id : DefId}

theorem ask_append (w : Worklist) (calls more : List Call) :
    w.ask (calls ++ more) =
      ((w.ask calls).1 ++ ((w.ask calls).2.ask more).1, ((w.ask calls).2.ask more).2) := by
  induction calls generalizing w with
  | nil => rfl
  | cons call rest ih => simp only [List.cons_append, ask, ih]

/-- One call more is answered by the worklist behind the others. -/
theorem ask_concat (w : Worklist) (calls : List Call) (call : Call) :
    w.ask (calls ++ [call]) =
      ((w.ask calls).1 ++ [((w.ask calls).2.perform call).1], ((w.ask calls).2.perform call).2) :=
  ask_append w calls [call]

theorem length_ask (w : Worklist) (calls : List Call) :
    (w.ask calls).1.length = calls.length := by
  induction calls generalizing w with
  | nil => rfl
  | cons call rest ih => rw [ask, List.length_cons, ih, List.length_cons]

theorem discoveries_concat_discover :
    discoveries (calls ++ [.discover id]) = discoveries calls ++ [id] := by
  rw [discoveries, List.filterMap_append]
  rfl

theorem discoveries_concat_takeBatch :
    discoveries (calls ++ [.takeBatch]) = discoveries calls := by
  rw [discoveries, List.filterMap_append]
  exact List.append_nil _

theorem untilLastBatch_concat_discover :
    untilLastBatch (calls ++ [.discover id]) = untilLastBatch calls :=
  List.rdropWhile_concat_pos _ _ _ rfl

theorem untilLastBatch_concat_takeBatch :
    untilLastBatch (calls ++ [.takeBatch]) = calls ++ [.takeBatch] :=
  List.rdropWhile_concat_neg _ _ _ (by decide)

/-! ## 2. One queue -/

/-- Both lists in a row have every discovery of the calls once, and those of them that were made
    before the last batch are handed out. -/
structure Queues (calls : List Call) (w : Worklist) : Prop where
  resolved : w.resolved = (discoveries (untilLastBatch calls)).eraseDups
  all : w.resolved ++ w.pending = (discoveries calls).eraseDups

/-- A definition is known exactly if it was discovered. -/
theorem Queues.knows_iff (h : Queues calls w) : w.knows id = true ↔ id ∈ discoveries calls := by
  rw [← List.mem_eraseDups, ← h.all, List.mem_append, knows, Bool.or_eq_true, List.contains_iff_mem,
    List.contains_iff_mem]

/-- An element at the end is the first of its kind unless it is there already. -/
theorem eraseDups_concat (ids : List DefId) (id : DefId) :
    (ids ++ [id]).eraseDups = if id ∈ ids then ids.eraseDups else ids.eraseDups ++ [id] := by
  rw [List.eraseDups_append]
  by_cases h : id ∈ ids
  · simp [List.removeAll, h]
  · simp [List.removeAll, h, List.eraseDups_cons]

/-- **A call keeps the queue**: a discovery that is new goes to its end, any other leaves it as it
    is, and a batch moves the border between what was handed out and what waits behind it. -/
theorem queues_perform (h : Queues calls w) (call : Call) :
    Queues (calls ++ [call]) (w.perform call).2 := by
  cases call with
  | discover id =>
    by_cases hknown : w.knows id = true
    · have hid := h.knows_iff.mp hknown
      have hsame : (w.perform (.discover id)).2 = w := discover_of_knows hknown
      rw [hsame]
      constructor
      · rw [untilLastBatch_concat_discover]
        exact h.resolved
      · rw [discoveries_concat_discover, eraseDups_concat, if_pos hid]
        exact h.all
    · have hid : id ∉ discoveries calls := fun hmem => hknown (h.knows_iff.mpr hmem)
      have hnext : (w.perform (.discover id)).2 = { w with pending := w.pending ++ [id] } :=
        discover_of_not_knows hknown
      rw [hnext]
      constructor
      · rw [untilLastBatch_concat_discover]
        exact h.resolved
      · rw [discoveries_concat_discover, eraseDups_concat, if_neg hid, ← h.all, List.append_assoc]
  | takeBatch =>
    constructor
    · rw [untilLastBatch_concat_takeBatch, discoveries_concat_takeBatch]
      exact h.all
    · rw [discoveries_concat_takeBatch]
      exact (List.append_nil _).trans h.all

/-- **Behind any calls a new worklist is one queue of what they discovered.** -/
theorem queues_behind (calls : List Call) : Queues calls (empty.ask calls).2 := by
  induction calls using List.reverseRecOn with
  | nil => exact ⟨rfl, rfl⟩
  | append_singleton calls call ih =>
    rw [ask_concat]
    exact queues_perform ih call

/-! ## 3. The answers -/

/-- What the batches hand out is what counts as handed out. -/
theorem flatten_batches_ask (w : Worklist) (calls : List Call) :
    w.resolved ++ (batches (w.ask calls).1).flatten = (w.ask calls).2.resolved := by
  induction calls generalizing w with
  | nil => exact List.append_nil _
  | cons call rest ih =>
    rw [ask]
    cases call with
    | discover id =>
      have hresolved : (w.perform (.discover id)).2.resolved = w.resolved := by
        show (w.discover id).2.resolved = w.resolved
        by_cases hknown : w.knows id = true
        · rw [discover_of_knows hknown]
        · rw [discover_of_not_knows hknown]
      have hrest := ih (w.perform (.discover id)).2
      rwa [hresolved] at hrest
    | takeBatch =>
      have hrest := ih (w.perform .takeBatch).2
      have hbatches : batches ((w.perform .takeBatch).1 :: ((w.perform .takeBatch).2.ask rest).1) =
          w.pending :: batches ((w.perform .takeBatch).2.ask rest).1 := rfl
      rw [hbatches, List.flatten_cons, ← List.append_assoc]
      exact hrest

/-- The answer to a discovery among the calls. -/
theorem reply_discover (before after : List Call) (id : DefId) :
    (empty.ask (before ++ .discover id :: after)).1[before.length]? =
      some (.discovered (decide (id ∉ discoveries before))) := by
  have hqueue := queues_behind before
  have hnew : ((empty.ask before).2.discover id).1 = decide (id ∉ discoveries before) := by
    by_cases hknown : (empty.ask before).2.knows id = true
    · have hid : ¬ id ∉ discoveries before := not_not_intro (hqueue.knows_iff.mp hknown)
      rw [discover, if_pos hknown, decide_eq_false hid]
    · have hid : id ∉ discoveries before := fun hmem => hknown (hqueue.knows_iff.mpr hmem)
      rw [discover, if_neg hknown, decide_eq_true hid]
  rw [ask_append, List.getElem?_append_right (length_ask empty before).le, length_ask,
    Nat.sub_self, ask, List.getElem?_cons_zero, ← hnew]
  rfl

/-- **A worklist hands out each discovery once, in the order of first discovery.** Whatever is asked
    of a new worklist: the batches in a row are the definitions discovered before the last batch was
    taken, the first of each kind; a discovery is answered with yes exactly if it is the first of
    its definition, whether that waits, was just handed out or was so long ago; and the number of
    definitions handed out is that of all batches together. -/
theorem hands_out_once (calls : List Call) :
    (batches (empty.ask calls).1).flatten =
        (discoveries (untilLastBatch calls)).eraseDups ∧
      (batches (empty.ask calls).1).flatten.Nodup ∧
      (∀ before id after, calls = before ++ .discover id :: after →
        (empty.ask calls).1[before.length]? =
          some (.discovered (decide (id ∉ discoveries before)))) ∧
      (empty.ask calls).2.resolvedCount = ((batches (empty.ask calls).1).map List.length).sum := by
  have hflatten : (batches (empty.ask calls).1).flatten = (empty.ask calls).2.resolved :=
    flatten_batches_ask empty calls
  have hresolved := (queues_behind calls).resolved
  refine ⟨hflatten.trans hresolved, ?_, ?_, ?_⟩
  · rw [hflatten, hresolved]
    exact nodup_eraseDups _
  · intro before id after hcalls
    rw [hcalls]
    exact reply_discover before after id
  · rw [← List.length_flatten, hflatten]
    rfl

/-- Nothing is new that waits, was just handed out or was so long ago. -/
example : (empty.ask [.discover 1, .discover 0, .discover 1, .takeBatch, .discover 0, .discover 2,
      .takeBatch, .takeBatch, .discover 1]).1 =
    [.discovered true, .discovered true, .discovered false, .batch [1, 0], .discovered false,
      .discovered true, .batch [2], .batch [], .discovered false] := by decide

end Calls

end WireContract.Bindings.Worklist
