import WireContract.Type.Table

/-!
# Cycles of aliases

An alias whose body leads back to the alias through references, unions and optional types alone
has no value to unfold to, and no meaning for the client's compiler. Struct, array, tuple and
record break such a cycle. The heads of a type are the references that stand at its top; the
search follows them depth first and visits no definition twice.

* `Ty.heads`: the references at the top of a type;
* `TypeTable.aliasCycle`: the names along a cycle through one alias, if there is one.
-/

namespace WireContract

mutual

/-- The references at the top of a type, seen through unions and optional types, from left to
    right. -/
def Ty.heads : Ty → List DefId
  | .named target _ => [target]
  | .union members => Ty.headsOfAll members
  | .optional inner => Ty.heads inner
  | _ => []

def Ty.headsOfAll : List Ty → List DefId
  | [] => []
  | ty :: rest => Ty.heads ty ++ Ty.headsOfAll rest

end

namespace TypeTable

/-- The outcome of a search: the way to the start, if found, and what was visited. -/
abbrev Search := Except SchemaFault (Option (List DefId) × List DefId)

/-- The heads tried one after another, each followed with `walk` unless it is the start, where
    the way ends, or was visited before. -/
def tryHeads (walk : DefId → List DefId → Search) (start : DefId) :
    List DefId → List DefId → Search
  | [], visited => .ok (none, visited)
  | next :: rest, visited =>
    if next = start then .ok (some [next], visited)
    else if visited.contains next then tryHeads walk start rest visited
    else
      match walk next (next :: visited) with
      | .error fault => .error fault
      | .ok (some way, visited) => .ok (some (next :: way), visited)
      | .ok (none, visited) => tryHeads walk start rest visited

/-- The way from an alias back to the start, over at most `fuel` definitions. What is no alias
    leads nowhere. -/
def walkAlias (t : TypeTable) (start : DefId) : Nat → DefId → List DefId → Search
  | 0, _, visited => .ok (none, visited)
  | fuel + 1, current, visited =>
    match t.get current with
    | .error fault => .error fault
    | .ok (.alias a) => tryHeads (walkAlias t start fuel) start a.ty.heads visited
    | .ok _ => .ok (none, visited)

/-- The names along a cycle that starts and ends with the alias. Every definition is visited once
    at most, so that a way has no more steps than the table has slots. -/
def aliasCycle (t : TypeTable) (start : DefId) : Except SchemaFault (Option (List String)) := do
  let (way, _) ← t.walkAlias start (t.size + 1) start []
  match way with
  | none => return none
  | some way =>
    let names ← (start :: way).mapM t.name
    return some names

end TypeTable

end WireContract
