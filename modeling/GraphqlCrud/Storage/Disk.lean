import GraphqlCrud.Storage.Basic
import GraphqlCrud.Storage.PlaceMap
/-!
A disk as a value: directories and files at places below a root. Paths are followed name by name,
and every name on the way must be that of a directory; so a double dot leads back from a directory
that is there, and from nothing else. Names and paths have a greatest length.
-/
namespace GraphqlCrud

def Place.enter (here : Place) (name : String) : Place :=
  if name = ".." then here.dropLast else here ++ [name]

inductive Node where
  | directory
  | file (content : String)
deriving Repr, DecidableEq

structure Disk where
  /-- Where relative paths begin. -/
  workingDirectory : Place
  entries : PlaceMap Node
deriving Repr, DecidableEq

namespace Disk

/-- A disk with nothing on it but a working directory. -/
def blank (name : String) : Disk :=
  { workingDirectory := [name], entries := .single .directory [name] }

/-- What is at a place. The root is always a directory. -/
def node? (d : Disk) (place : Place) : Option Node :=
  if place = [] then some .directory else d.entries.get? place

def put (d : Disk) (place : Place) (node : Node) : Disk :=
  { d with entries := d.entries.put node place }

def keep (d : Disk) (test : Place → Bool) : Disk :=
  { d with entries := d.entries.keep test }

theorem node?_put (d : Disk) {place : Place} (node : Node) (h : place ≠ []) (other : Place) :
    (d.put place node).node? other = if other = place then some node else d.node? other := by
  by_cases hr : other = []
  · subst hr
    simp [node?, Ne.symm h]
  · simp [put, node?, hr, PlaceMap.get?_put _ _ h]

theorem node?_keep (d : Disk) (test : Place → Bool) {place : Place} (h : place ≠ []) :
    (d.keep test).node? place = if test place then d.node? place else none := by
  simp [keep, node?, h, PlaceMap.get?_keep]

/-! Following paths -/

/-- Why a path leads nowhere: nothing has one of its names, or the way is blocked by something that is
no directory or by a name that nothing can have. -/
inductive Obstacle where
  | missing
  | blocked
deriving Repr, DecidableEq

def names (path : String) : List String :=
  (Text.parts '/' path).filter fun name => name != "" && name != "."

def origin (d : Disk) (path : String) : Place :=
  if Path.isAbsolute path then [] else d.workingDirectory

/-- A path with a null character in it is none, nor is one of more than 4095 bytes. -/
def isImpossible (path : String) : Bool :=
  4095 < path.utf8ByteSize || path.toList.contains '\x00'

def isTooLong (name : String) : Bool := 255 < name.utf8ByteSize

/-- Whether the path can only be that of a directory, because of how it ends. -/
def endsAtDirectory (path : String) : Bool :=
  match (Text.parts '/' path).getLast? with
  | some name => name == "" || name == "." || name == ".."
  | none => true

/-- Follows names from a place. What is at the end may be anything, or nothing. -/
def follow (d : Disk) (here : Place) : List String → Except Obstacle Place
  | [] => .ok here
  | name :: rest =>
    match d.node? here with
    | some .directory => if isTooLong name then .error .blocked else d.follow (here.enter name) rest
    | some (.file _) => .error .blocked
    | none => .error .missing

def find (d : Disk) (path : String) : Except Obstacle (Place × Node) :=
  if path = "" then .error .missing
  else if isImpossible path then .error .blocked
  else
    match d.follow (d.origin path) (names path) with
    | .error obstacle => .error obstacle
    | .ok place =>
      match d.node? place with
      | none => .error .missing
      | some .directory => .ok (place, .directory)
      | some (.file content) =>
        if endsAtDirectory path then .error .blocked else .ok (place, .file content)

def read? (d : Disk) (path : String) : Option String :=
  match d.find path with
  | .ok (_, .file content) => some content
  | _ => none

def isDirectory (d : Disk) (path : String) : Bool :=
  match d.find path with
  | .ok (_, .directory) => true
  | _ => false

/-! Making directories and files -/

/-- The disk with a directory at a place; there is none if a file is in the way. -/
def withDirectory? (d : Disk) (place : Place) : Option Disk :=
  match d.node? place with
  | some .directory => some d
  | some (.file _) => none
  | none => some (d.put place .directory)

/-- Makes a directory of every place on the way, up to the first that cannot be one. -/
def makeAlong (d : Disk) (here : Place) : List String → Bool × Disk
  | [] =>
    match d.withDirectory? here with
    | some d => (true, d)
    | none => (false, d)
  | name :: rest =>
    match d.withDirectory? here with
    | some d => if isTooLong name then (false, d) else d.makeAlong (here.enter name) rest
    | none => (false, d)

def makeDirectory (d : Disk) (path : String) : Bool × Disk :=
  if isImpossible path then (false, d) else d.makeAlong (d.origin path) (names path)

/-- The disk with a file at a place, unless a directory is there. -/
def withFile? (d : Disk) (place : Place) (content : String) : Option Disk :=
  match d.node? place with
  | some .directory => none
  | _ => some (d.put place (.file content))

def write (d : Disk) (path content : String) : Bool × Disk :=
  if isImpossible path || endsAtDirectory path then (false, d)
  else
    match d.follow (d.origin path) (names path) with
    | .error _ => (false, d)
    | .ok place =>
      match d.withFile? place content with
      | some d => (true, d)
      | none => (false, d)

/-! Removing -/

/-- Whether a place is another or below it. -/
def isWithin (place other : Place) : Bool := place.isPrefixOf other

def without (d : Disk) (place : Place) : Disk := d.keep fun p => !isWithin place p

def emptiedAt (d : Disk) (place : Place) : Disk :=
  d.keep fun p => !isWithin place p || p == place

/-- Whether the path ends with the name of what it leads to, and not with dots or at the root. -/
def endsWithName (path : String) : Bool :=
  match ((Text.parts '/' path).filter (· != "")).getLast? with
  | some name => name != "." && name != ".."
  | none => false

/-- Whether the names of a path are still those of directories. Nothing is asked of a double dot,
which leads even out of a directory that has just been removed. -/
def reaches (d : Disk) (here : Place) : List String → Bool
  | [] => true
  | name :: rest =>
    (name == ".." || d.node? (here.enter name) == some .directory) &&
      d.reaches (here.enter name) rest

/-- Removes a directory. All that is in it goes first, and then the directory itself, which needs a
name for that: a directory that is still reached without one cannot be removed. -/
def remove (d : Disk) (path : String) : Removal × Disk :=
  match d.find path with
  | .error .missing => (.absent, d)
  | .error .blocked => (.failed, d)
  | .ok (_, .file _) => (.failed, d)
  | .ok (place, .directory) =>
    if endsWithName path then (.removed, d.without place)
    else
      let emptied := d.emptiedAt place
      if emptied.reaches (d.origin path) (names path) then (.failed, emptied)
      else (.removed, emptied)

def removeFile (d : Disk) (path : String) : Bool × Disk :=
  match d.find path with
  | .ok (place, .file _) => (true, d.keep (· != place))
  | _ => (false, d)

/-- The files below the working directory: their paths from there and their contents, in the order
of the paths. -/
def files (d : Disk) : List (String × String) :=
  let found := d.entries.toList.filterMap fun (place, node) =>
    match node with
    | .file content =>
      if isWithin d.workingDirectory place then
        some ("/".intercalate (place.drop d.workingDirectory.length), content)
      else none
    | .directory => none
  found.mergeSort fun a b => !decide (b.1 < a.1)

end Disk

instance : Storage (StateM Disk) where
  read? path := do return (← get).read? path
  isDirectory path := do return (← get).isDirectory path
  makeDirectory path := modifyGet (·.makeDirectory path)
  write path content := modifyGet (·.write path content)
  remove path := modifyGet (·.remove path)

end GraphqlCrud
