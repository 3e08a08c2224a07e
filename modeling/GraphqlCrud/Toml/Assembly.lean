import GraphqlCrud.Toml.Basic
/-!
Putting statements together into one table. A table is defined once: a header may finish a table
that was only implied, a dotted key may add to tables that dotted keys made, and a table in braces
is complete as it stands.
-/
namespace GraphqlCrud.Toml

/-- Edits the table at the end of a path. Tables that are missing on the way come into being with
the given origin; an array of tables stands for its last one. A dotted key may not pass through a
table that has a header of its own. -/
def editAt (made : Origin) (edit : Origin → Entries → Option Value) :
    List String → Origin → Entries → Option Value
  | [], origin, entries => edit origin entries
  | key :: path, origin, entries =>
    match entries.find? key with
    | none => (editAt made edit path made []).map fun child => .table origin (entries.put key child)
    | some (.table childOrigin children) =>
      if childOrigin = .braced || (made = .dotted && childOrigin = .headed) then none
      else
        (editAt made edit path childOrigin children).map fun child =>
          .table origin (entries.put key child)
    | some (.array items true) =>
      match items.getLast? with
      | some (.table childOrigin children) =>
        (editAt made edit path childOrigin children).map fun child =>
          .table origin (entries.put key (.array (items.dropLast ++ [child]) true))
      | _ => none
    | some _ => none

/-- Adds a key to a table, at the end of a dotted path when there is one. The path has to end in a
table that dotted keys made. -/
def addKey (isDotted : Bool) (key : String) (value : Value) (origin : Origin) (entries : Entries) :
    Option Value :=
  if isDotted != (origin == .dotted) then none
  else if (entries.find? key).isSome then none
  else some (.table origin (entries.put key value))

def assign (path : List String) (value : Value) (origin : Origin) (entries : Entries) :
    Option Value :=
  match path.getLast? with
  | none => none
  | some key =>
    let way := path.dropLast
    editAt .dotted (addKey (!way.isEmpty) key value) way origin entries

def addHeader (key : String) (origin : Origin) (entries : Entries) : Option Value :=
  match entries.find? key with
  | none => some (.table origin (entries.put key (.table .headed [])))
  | some (.table .implied children) => some (.table origin (entries.put key (.table .headed children)))
  | some _ => none

def addToArray (key : String) (origin : Origin) (entries : Entries) : Option Value :=
  match entries.find? key with
  | none => some (.table origin (entries.put key (.array [.table .headed []] true)))
  | some (.array items true) =>
    some (.table origin (entries.put key (.array (items ++ [.table .headed []]) true)))
  | some _ => none

def bracedTable? (pairs : List (List String × Value)) : Option Value :=
  pairs.foldlM (fun table pair =>
    match table with
    | .table origin entries => assign pair.1 pair.2 origin entries
    | _ => none) (.table .braced [])

/-- A line of a document: a header, the header of a table in an array, or a key with its value. -/
inductive Statement where
  | header (path : List String)
  | arrayHeader (path : List String)
  | pair (path : List String) (value : Value)

/-- The document so far, and the path of the table that keys are added to. -/
structure Assembly where
  current : List String := []
  entries : Entries := []

def Assembly.withRoot? (current : List String) : Option Value → Option Assembly
  | some (.table _ entries) => some { current, entries }
  | _ => none

def Assembly.add (a : Assembly) : Statement → Option Assembly
  | .header path => do
    let key ← path.getLast?
    Assembly.withRoot? path (editAt .implied (addHeader key) path.dropLast .headed a.entries)
  | .arrayHeader path => do
    let key ← path.getLast?
    Assembly.withRoot? path (editAt .implied (addToArray key) path.dropLast .headed a.entries)
  | .pair path value =>
    Assembly.withRoot? a.current (editAt .implied (assign path value) a.current .headed a.entries)

/-- The table that a document describes; none when two statements contradict each other. -/
def assemble? (statements : List Statement) : Option Entries :=
  (statements.foldlM Assembly.add {}).map Assembly.entries

end GraphqlCrud.Toml
