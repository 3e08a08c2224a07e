import GraphqlCrud.Command.Failure
import GraphqlCrud.Command.Report
import GraphqlCrud.Compilation.Snapshot
import GraphqlCrud.Output.Delivery
/-!
The generation of all files of a schema. A dry run shows the files in place of storing them.
Snapshots of the run are stored last, because the generation may delete the directory that they are
in.
-/
namespace GraphqlCrud.Command

open Output (Generation OutputFile)

structure GenerateOptions where
  outputDir : String
  isDryRun : Bool := false
  keepsSnapshots : Bool := false
deriving Repr, DecidableEq

structure StoredResult where
  deletedFirst : Bool
  written : Nat
  unchanged : Nat
  /-- The paths of the files that could not be stored, each with the reason. -/
  failures : List (String × String)
deriving Repr, DecidableEq

/-- What came of a generation: the files to show, or what was stored. -/
inductive GenerateResult where
  | preview (files : List OutputFile)
  | stored (result : StoredResult)
deriving Repr, DecidableEq

structure GenerateReport where
  warnings : List String
  modelCount : Nat
  resolverCount : Nat
  result : GenerateResult
deriving Repr, DecidableEq

def StoredResult.ofGeneration (g : Generation) : StoredResult :=
  { deletedFirst := g.deletedFirst
    written := g.delivery.written
    unchanged := g.delivery.unchanged
    failures := g.delivery.failures.map fun (path, failure) => (path, failure.message) }

def snapshotPipeline (keepsSnapshots : Bool) : Pipeline (List Snapshot) :=
  { observers :=
      if keepsSnapshots then [Snapshot.observer fun kept snapshot => kept ++ [snapshot]] else [] }

/-- A run up to its plan, with the snapshots that it kept. -/
def planned (document : Schema.Document) (config : Config) (keepsSnapshots : Bool) :
    Except Failure (Compilation × Plan × List Snapshot) :=
  match (snapshotPipeline keepsSnapshots).run document config [] with
  | (_, some stop) => .error (.stopped stop)
  | (progress, none) =>
    match progress.compilation.planned with
    | .error stop => .error (.stopped stop)
    | .ok plan => .ok (progress.compilation, plan, progress.notes)

def snapshotDirectory (outputDir : String) : String := Path.join outputDir ".pothos/debug"

variable {m : Type → Type} [Monad m] [Storage m]

/-- Stores snapshots in a directory, up to the first that cannot be stored. -/
def storeSnapshots (directory : String) : List Snapshot → m (Except SnapshotFailure Unit)
  | [] => return .ok ()
  | snapshot :: rest => do
    let path := Path.join directory snapshot.fileName
    if !(← Storage.makeDirectory directory) then return .error (.create directory)
    else if !(← Storage.write path snapshot.text) then return .error (.write path)
    else storeSnapshots directory rest

def produce (c : Compilation) (plan : Plan) (options : GenerateOptions) :
    m (Except Failure GenerateResult) := do
  if options.isDryRun then return .ok (.preview (Output.files c.document plan c.config))
  else
    match ← Output.generate c.document plan c.config options.outputDir with
    | .error failure => return .error (.generation failure)
    | .ok generation => return .ok (.stored (.ofGeneration generation))

def generate (document : Schema.Document) (config : Config) (options : GenerateOptions) :
    m (Except Failure GenerateReport) := do
  match planned document config options.keepsSnapshots with
  | .error failure => return .error failure
  | .ok (c, plan, snapshots) =>
    match ← produce c plan options with
    | .error failure => return .error failure
    | .ok result =>
      match ← storeSnapshots (snapshotDirectory options.outputDir) snapshots with
      | .error failure => return .error (.snapshots failure)
      | .ok () =>
        return .ok {
          warnings := c.warnings.map (·.message)
          modelCount := plan.models.length
          resolverCount := plan.resolverCount
          result }

namespace GenerateReport

def previewLines (files : List OutputFile) : Report :=
  files.flatMap (fun f => [.divider f.path, .plain f.content]) ++
    [.divider "Summary", .plain (toString files.length ++ " files would be generated")]

def failureLines : List (String × String) → Report
  | [] => []
  | failures =>
    [.blank, .heading ("Failed writes (" ++ toString failures.length ++ ")")] ++
      failures.map fun (path, reason) => .item (path ++ ": " ++ reason)

def storedLines (r : GenerateReport) (options : GenerateOptions) (stored : StoredResult) :
    Report :=
  (if options.keepsSnapshots then
    [.entry "Pipeline snapshots written to" (snapshotDirectory options.outputDir), .blank]
  else []) ++
    r.warnings.map .warning ++
    (if stored.deletedFirst then [.entry "Deleted" options.outputDir] else []) ++
    [.entry "Generated" options.outputDir,
      .detail "models" (toString r.modelCount),
      .detail "resolvers" (toString r.resolverCount),
      .detail "written" (toString stored.written),
      .detail "unchanged" (toString stored.unchanged)] ++
    failureLines stored.failures

def lines (r : GenerateReport) (options : GenerateOptions) : Report :=
  match r.result with
  | .preview files => previewLines files
  | .stored result => r.storedLines options result

end GenerateReport
end GraphqlCrud.Command
