import GraphqlCrud.Path
/-!
Files around a run. What a run asks of them is stated here apart from where the files are, so that
the same run can work on files of the machine and on files that are only thought of.
-/
namespace GraphqlCrud

inductive Removal where
  | removed
  | absent
  | failed
deriving Repr, DecidableEq

/-- Files that can be read, written and removed. A request that cannot be met is answered by
`none`, `false` or `failed`. -/
class Storage (m : Type → Type) where
  read? (path : String) : m (Option String)
  isDirectory (path : String) : m Bool
  /-- Makes a directory, and the directories on the way to it. It may be there already. -/
  makeDirectory (path : String) : m Bool
  /-- Writes a file in place of one that may be there already. Its directory must be there. -/
  write (path content : String) : m Bool
  /-- Removes a directory with all that is in it. -/
  remove (path : String) : m Removal

inductive StorageFailure where
  | create (directory : String)
  | write (path : String)
  | delete (path : String)
deriving Repr, DecidableEq

def StorageFailure.message : StorageFailure → String
  | .create directory => "failed to create directory '" ++ directory ++ "'"
  | .write path => "failed to write '" ++ path ++ "'"
  | .delete path => "failed to delete '" ++ path ++ "'"

/-- What came of storing a file. A file that already holds its content is not touched. -/
inductive StoreOutcome where
  | written
  | unchanged
  | failed (failure : StorageFailure)
deriving Repr, DecidableEq

namespace Storage

variable {m : Type → Type} [Monad m] [Storage m]

/-- Stores a file whose directory is there. -/
def storeInPlace (path content : String) : m StoreOutcome := do
  if (← read? path) = some content then return .unchanged
  else if ← write path content then return .written
  else return .failed (.write path)

def store (path content : String) : m StoreOutcome := do
  match Path.parent? path with
  | none => storeInPlace path content
  | some directory =>
    if ← makeDirectory directory then storeInPlace path content
    else return .failed (.create directory)

/-- Removes a directory that may be missing, and tells whether there was one. -/
def removeIfPresent (path : String) : m (Except StorageFailure Bool) := do
  match ← remove path with
  | .removed => return .ok true
  | .absent => return .ok false
  | .failed => return .error (.delete path)

end Storage
end GraphqlCrud
