import GraphqlCrud.Compilation.Basic
import GraphqlCrud.Storage.Basic
/-!
Why a command does not do its work.
-/
namespace GraphqlCrud.Command

inductive SnapshotFailure where
  | create (directory : String)
  | write (path : String)
deriving Repr, DecidableEq

def SnapshotFailure.message : SnapshotFailure → String
  | .create directory => "failed to create '" ++ directory ++ "'"
  | .write path => "failed to write '" ++ path ++ "'"

inductive Failure where
  | stopped (stop : Stop)
  | generation (failure : StorageFailure)
  | snapshots (failure : SnapshotFailure)
  | removal (failure : StorageFailure)
deriving Repr, DecidableEq

/-- What failed, and then why. -/
def Failure.messages : Failure → List String
  | .stopped stop => ["Pipeline failed", stop.message]
  | .generation failure => ["Failed to generate code", failure.message]
  | .snapshots failure => ["Failed to write pipeline snapshots", failure.message]
  | .removal failure => ["Failed to remove generated output", failure.message]

end GraphqlCrud.Command
