import WireContract.Type.Basic

/-!
# The worklist of definitions

Definitions that are mentioned have to be declared, each once, in the order in which they were
first mentioned. The worklist keeps those handed out already (`resolved`) and those waiting
(`pending`), and hands out all that wait as one batch: what is discovered while a batch is being
declared makes the next.
-/

namespace WireContract.Bindings

/-- Definitions handed out, and definitions waiting in order of discovery. -/
structure Worklist where
  resolved : List DefId := []
  pending : List DefId := []
  deriving Repr

namespace Worklist

/-- The worklist without a discovery. -/
def empty : Worklist := {}

/-- Whether a definition was discovered before. -/
def knows (w : Worklist) (id : DefId) : Bool :=
  w.resolved.contains id || w.pending.contains id

/-- Discover a definition; true when it is a new one. -/
def discover (w : Worklist) (id : DefId) : Bool × Worklist :=
  if w.knows id then (false, w) else (true, { w with pending := w.pending ++ [id] })

/-- Discover definitions one after another. -/
def discoverAll (w : Worklist) (ids : List DefId) : Worklist :=
  ids.foldl (fun w id => (w.discover id).2) w

/-- Hand out what is waiting. -/
def takeBatch (w : Worklist) : List DefId × Worklist :=
  (w.pending, { resolved := w.resolved ++ w.pending, pending := [] })

/-- The number of definitions handed out. -/
def resolvedCount (w : Worklist) : Nat := w.resolved.length

end Worklist

end WireContract.Bindings
