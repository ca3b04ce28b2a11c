import WireContract.Text.Cut

/-!
# Paths

A path is a text whose steps are separated by slashes. Empty steps and single points lead nowhere;
a path that starts with a slash starts at the root.
-/

namespace WireContract.Command.Path

/-- A path of so many bytes is one that no system takes. -/
def byteLimit : Nat := 4096

/-- The steps between the slashes, those that lead nowhere included. -/
def steps (path : String) : List String :=
  (Text.segments '/' path.toList).map String.ofList

/-- Whether a step leads nowhere. -/
def isIdle (step : String) : Bool := step == "" || step == "."

/-- The steps that lead somewhere. -/
def parts (path : String) : List String :=
  (steps path).filter fun step => !isIdle step

/-- Whether a path starts at the root. -/
def isRooted (path : String) : Bool := path.toList.head? == some '/'

/-- A path that leads to a directory and one step further. -/
def join (path step : String) : String :=
  if path.isEmpty then step
  else if path.toList.getLast? == some '/' then path ++ step
  else path ++ "/" ++ step

/-- Whether a path is a single point, perhaps with steps behind it that lead nowhere. -/
def isHere (path : String) : Bool :=
  (steps path).head? == some "." && (parts path).isEmpty

/-- A step from a path, which is left out where it leads nowhere. -/
def step (path name : String) : String :=
  if isHere path then name else join path name

/-- The steps that lead somewhere, each written with those in front of it that lead nowhere. -/
def stretches : List String → List String
  | [] => []
  | step :: rest =>
    if isIdle step then
      match stretches rest with
      | [] => []
      | next :: further => (step ++ "/" ++ next) :: further
    else step :: stretches rest

end WireContract.Command.Path
