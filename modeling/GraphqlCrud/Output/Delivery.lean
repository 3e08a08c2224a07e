import GraphqlCrud.Output.Files
import GraphqlCrud.Storage.Basic
/-!
Delivery of the files of a run to a directory. Files are stored one after another, and one that
cannot be stored does not keep the others from it.
-/
namespace GraphqlCrud.Output

/-- What came of each file of a delivery, by the paths of the files. -/
structure Delivery where
  attempts : List (String × StoreOutcome)
deriving Repr, DecidableEq

namespace Delivery

def writtenPaths (d : Delivery) : List String :=
  d.attempts.filterMap fun
    | (path, .written) => some path
    | _ => none

def unchangedPaths (d : Delivery) : List String :=
  d.attempts.filterMap fun
    | (path, .unchanged) => some path
    | _ => none

def failures (d : Delivery) : List (String × StorageFailure) :=
  d.attempts.filterMap fun
    | (path, .failed failure) => some (path, failure)
    | _ => none

def written (d : Delivery) : Nat := d.writtenPaths.length

def unchanged (d : Delivery) : Nat := d.unchangedPaths.length

def total (d : Delivery) : Nat := d.written + d.unchanged + d.failures.length

def hasFailures (d : Delivery) : Bool := !d.failures.isEmpty

end Delivery

/-- What came of a generation: whether an old directory was deleted first, and the delivery. -/
structure Generation where
  deletedFirst : Bool
  delivery : Delivery
deriving Repr, DecidableEq

variable {m : Type → Type} [Monad m] [Storage m]

def deliver (directory : String) (files : List OutputFile) : m Delivery := do
  let attempts ← files.mapM fun f => do
    return (f.path, ← Storage.store (f.fullPath directory) f.content)
  return { attempts }

def deleteFirst (config : GlobalConfig) (directory : String) : m (Except StorageFailure Bool) :=
  if config.deleteOutputFirst then Storage.removeIfPresent directory else return .ok false

/-- Generates the files of a plan below a directory. Without the deletion that was asked for nothing
is generated. -/
def generate (document : Schema.Document) (plan : Plan) (config : Config) (directory : String) :
    m (Except StorageFailure Generation) := do
  match ← deleteFirst config.global directory with
  | .error failure => return .error failure
  | .ok deletedFirst =>
    return .ok { deletedFirst, delivery := ← deliver directory (files document plan config) }

end GraphqlCrud.Output
