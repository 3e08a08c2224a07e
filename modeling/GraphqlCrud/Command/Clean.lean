import GraphqlCrud.Command.Failure
import GraphqlCrud.Command.Report
import GraphqlCrud.Compilation.Run
/-!
The removal of all generated files, with the directory that they are in. A dry run only tells
whether there is such a directory.
-/
namespace GraphqlCrud.Command

structure CleanOptions where
  outputDir : String
  isDryRun : Bool := false
deriving Repr, DecidableEq

structure CleanReport where
  warnings : List String
  /-- Whether the directory was, or would be, removed. -/
  removed : Bool
deriving Repr, DecidableEq

variable {m : Type → Type} [Monad m] [Storage m]

def removeOutput (options : CleanOptions) : m (Except StorageFailure Bool) := do
  if options.isDryRun then return .ok (← Storage.isDirectory options.outputDir)
  else Storage.removeIfPresent options.outputDir

def clean (document : Schema.Document) (config : Config) (options : CleanOptions) :
    m (Except Failure CleanReport) := do
  match compile document config with
  | .error stop => return .error (.stopped stop)
  | .ok c =>
    match ← removeOutput options with
    | .error failure => return .error (.removal failure)
    | .ok removed => return .ok { warnings := c.warnings.map (·.message), removed }

def CleanReport.lines (r : CleanReport) (options : CleanOptions) : Report :=
  r.warnings.map .warning ++
    if r.removed then
      [.heading (if options.isDryRun then "Would delete" else "Deleted"), .item options.outputDir]
    else [.plain "No generated output found."]

end GraphqlCrud.Command
