import GraphqlCrud.Text.Basic
/-!
Paths as texts with `/` between their parts. Empty parts and single dots inside a path mean
nothing; a leading dot and double dots are kept, because what they mean depends on the place where
the path is followed.
-/
namespace GraphqlCrud.Path

def isAbsolute (path : String) : Bool := Text.begins "/" path

/-- The path `path` as seen from `base`. An absolute path is the same from everywhere. -/
def join (base path : String) : String :=
  if isAbsolute path then path
  else if base = "" || base.toList.getLast? = some '/' then base ++ path
  else base ++ "/" ++ path

/-- Whether a part names nothing: it is empty, or a dot that does not begin a relative path. -/
def isVoid (beginsPath : Bool) (part : String) : Bool :=
  part == "" || (part == "." && !beginsPath)

/-- The parts of a relative path, each with the question whether it names something. -/
def namedParts : List String → List (String × Bool)
  | [] => []
  | first :: rest =>
    (first, !isVoid true first) :: rest.map fun part => (part, !isVoid false part)

/-- The parts of a path below its root, each with the question whether it names something. -/
def bodyParts (path : String) : List (String × Bool) :=
  match Text.dropLeading? "/" path with
  | some body => (Text.parts '/' body).map fun part => (part, !isVoid false part)
  | none => namedParts (Text.parts '/' path)

/-- The parts of a path that name something. The root counts as one. -/
def components (path : String) : List String :=
  (if isAbsolute path then ["/"] else []) ++ ((bodyParts path).filter (·.2)).map (·.1)

/-- The path without its last part; a path that has no parts has none to leave. -/
def parent? (path : String) : Option String :=
  let dropVoid := fun (parts : List (String × Bool)) => parts.dropWhile fun part => !part.2
  match dropVoid (bodyParts path).reverse with
  | [] => none
  | _ :: rest =>
    some ((if isAbsolute path then "/" else "") ++
      "/".intercalate ((dropVoid rest).reverse.map (·.1)))

/-- The parts of a path that name something, with `/` between them. -/
def normal (path : String) : String := "/".intercalate (components path)

end GraphqlCrud.Path
