import WireContract.Command.Files
import WireContract.Command.Path

/-!
# A tree of files as a value

Directories and files by their locations, which are the names from the root of the system down. A
command runs in one of the directories, its home; a path that does not start with a slash starts
there. `FileTree.files` are the operations on such a tree; they answer as a POSIX system does.

Every system has a few directories of its own, and in some of them the files are special: they are
no memory. Of these only the null file is known. The others are left out: what is read from one is
what the tree has there, and what is written to it is gone, whoever gets it (`/dev/stdout` shows it
on the standard output, `/dev/full` refuses it). So what is said of a file that is written is said
of locations that are not special, and of the null file. Links are left out altogether.
-/

namespace WireContract.Command

/-- The names on the way from the root of the system. -/
abbrev Location := List String

/-- The step to the directory above. -/
def upward : String := ".."

/-- The directories in which every file is special: devices, and what the system says of itself. -/
def specialAreas : List Location := [["dev"], ["proc"], ["sys"]]

/-- Whether a location is one of special files. -/
def isSpecial (l : Location) : Bool := specialAreas.any (·.isPrefixOf l)

/-- The special file that holds nothing, whatever is written to it. -/
def nullFile : Location := ["dev", "null"]

/-- The directories of every system. -/
def standing : List Location := [] :: ["tmp"] :: specialAreas

/-- The locations on the way to one, from the root to itself. -/
def way (l : Location) : List Location := (List.range (l.length + 1)).map fun n => l.take n

/-- Directories besides those that are there anyway, and files with what they hold. -/
structure FileTree where
  /-- The directory that paths start in. -/
  home : Location := ["tmp", "work"]
  directories : List Location := []
  contents : List (Location × List UInt8) := []
  deriving Repr

namespace FileTree

/-- All directories. -/
def known (t : FileTree) : List Location := standing ++ way t.home ++ t.directories

/-- What a file holds. -/
def content? (t : FileTree) (l : Location) : Option (List UInt8) :=
  if l = nullFile then some [] else t.contents.lookup l

/-- What stands at a location. -/
def kindAt (t : FileTree) (l : Location) : Option FileKind :=
  if t.known.contains l then some .directory
  else if (t.content? l).isSome then some .file
  else none

/-! ## 1. Ways -/

/-- The greatest number of bytes in a name. -/
def nameLimit : Nat := 255

/-- Where steps lead from a location. Every step is taken from a directory; the last one may lead
    to where nothing is yet. The root is above itself. -/
def walk (t : FileTree) : Location → List String → Except SystemError Location
  | here, [] => .ok here
  | here, step :: rest =>
    match t.kindAt here with
    | none => .error .notFound
    | some .file => .error .notDirectory
    | some .directory =>
      if Path.isIdle step then walk t here rest
      else if step = upward then walk t here.dropLast rest
      else if nameLimit < step.utf8ByteSize then .error .nameTooLong
      else walk t (here ++ [step]) rest

/-- Where steps lead from the path's start. A path that the system cannot take, and the empty one,
    lead nowhere. -/
def follow (t : FileTree) (path : String) (steps : List String) : Except SystemError Location :=
  if path.toList.contains '\x00' then .error .zeroInPath
  else if Path.byteLimit ≤ path.utf8ByteSize then .error .nameTooLong
  else if path.isEmpty then .error .notFound
  else t.walk (if Path.isRooted path then [] else t.home) steps

/-- The steps of a path without the slashes at its end, and whether there are such. -/
def trimmed (path : String) : List String × Bool :=
  let back := (Path.steps path).reverse
  ((back.dropWhile (·.isEmpty)).reverse, back.head? == some "")

/-! ## 2. Operations -/

/-- What stands at a path. -/
def kind (t : FileTree) (path : String) : Option FileKind :=
  match t.follow path (Path.steps path) with
  | .ok l => t.kindAt l
  | .error _ => none

/-- What the file at a path holds. -/
def read (t : FileTree) (path : String) : Except SystemError (List UInt8) :=
  match t.follow path (Path.steps path) with
  | .error e => .error e
  | .ok l =>
    match t.kindAt l with
    | none => .error .notFound
    | some .directory => .error .isDirectory
    | some .file => .ok ((t.content? l).getD [])

/-- The step from one location to another that is right below it. -/
def stepBetween? : Location → Location → Option String
  | [], [name] => some name
  | a :: l, b :: other => if a = b then stepBetween? l other else none
  | _, _ => none

/-- The names one step below a location. -/
def below (l : Location) (locations : List Location) : List String :=
  locations.filterMap (stepBetween? l)

/-- The names in the directory at a path. -/
def names (t : FileTree) (path : String) : Except SystemError (List String) :=
  match t.follow path (Path.steps path) with
  | .error e => .error e
  | .ok l =>
    match t.kindAt l with
    | none => .error .notFound
    | some .file => .error .notDirectory
    | some .directory =>
      .ok (below l (t.known ++ nullFile :: t.contents.map (·.1))).eraseDups

/-- The tree with one more directory. -/
def makeDirectory (t : FileTree) (path : String) : Except SystemError FileTree :=
  match t.follow path (trimmed path).1 with
  | .error e => .error e
  | .ok l =>
    if (t.kindAt l).isSome then .error .alreadyThere
    else .ok { t with directories := t.directories ++ [l] }

/-- The content of the file at a location replaced, or a new file there. -/
def store (l : Location) (content : List UInt8) :
    List (Location × List UInt8) → List (Location × List UInt8)
  | [] => [(l, content)]
  | (k, old) :: rest =>
    if k = l then (k, content) :: rest else (k, old) :: store l content rest

/-- The tree with a text in the file at a path, which is a new one if there is none. A path with a
    slash at its end is never a file's, if only the directory in front of its last step is there.
    No special file comes to hold the text. -/
def write (t : FileTree) (path text : String) : Except SystemError FileTree :=
  let (steps, slashAtEnd) := trimmed path
  match t.follow path (if slashAtEnd then steps.dropLast ++ ["."] else steps) with
  | .error e => .error e
  | .ok l =>
    if t.kindAt l == some .directory then .error .isDirectory
    else if isSpecial l then .ok t
    else .ok { t with contents := store l text.toUTF8.toList t.contents }

/-- Run an operation that may change the tree. -/
def change (operation : FileTree → Except SystemError FileTree) :
    StateM FileTree (Except SystemError Unit) := fun t =>
  match operation t with
  | .ok t => (.ok (), t)
  | .error e => (.error e, t)

/-- The operations on a tree. -/
def files : Files (StateM FileTree) where
  kind path := return (← get).kind path
  read path := return (← get).read path
  names path := return (← get).names path
  makeDirectory path := change fun t => t.makeDirectory path
  write path text := change fun t => t.write path text

/-! ## 3. Making trees -/

/-- The tree with one more file on a path from its home, and all directories above the file. -/
def add (t : FileTree) (path text : String) : FileTree :=
  let l := t.home ++ Path.parts path
  { t with
    directories := t.directories ++ (way l.dropLast).filter fun d => !t.known.contains d
    contents := store l text.toUTF8.toList t.contents }

/-- The tree of some files, given by path and text. -/
def ofFiles (files : List (String × String)) : FileTree :=
  files.foldl (fun t f => t.add f.1 f.2) {}

end FileTree

end WireContract.Command
