import GraphqlCrud.Command.Arguments
import GraphqlCrud.Command.Check
import GraphqlCrud.Command.Clean
import GraphqlCrud.Command.Generate
import GraphqlCrud.Config.Location
import GraphqlCrud.Source
/-!
The execution of a command line: its words are read, the schema and the options are loaded, and the
command does its work.
-/
namespace GraphqlCrud.Command

inductive Ending where
  | done (report : Report)
  /-- A check that found errors. -/
  | rejected (report : Report)
  | failed (failure : Failure)
  | unloaded (failure : LoadFailure)
  | misused
deriving Repr, DecidableEq

def Ending.exitCode : Ending → Nat
  | .done _ => 0
  | .rejected _ | .failed _ | .unloaded _ => 1
  | .misused => 2

/-- The schema and the options of a request, and the file of the options. -/
structure Sources where
  document : Schema.Document
  config : Config
  configPath : Option String
deriving Repr, DecidableEq

namespace Request

def schemaPath (r : Request) : String := (r.value? .schema).getD "prisma/dmmf.json"

/-- The file of the options, given the value of the variable that may name another one. -/
def configPath? (r : Request) (override : Option String) : Option String :=
  Config.location? override (r.value? .config) (Path.parent? r.schemaPath)

/-- Where files are generated: the directory that is asked for, else that of the options. -/
def outputDir (r : Request) (config : Config) : String :=
  (r.value? .output).getD config.global.outputDir

def generateOptions (r : Request) (config : Config) : GenerateOptions :=
  { outputDir := r.outputDir config, isDryRun := r.has .dryRun
    keepsSnapshots := r.has .visualize }

def cleanOptions (r : Request) (config : Config) : CleanOptions :=
  { outputDir := r.outputDir config, isDryRun := r.has .dryRun }

/-- What a check is labelled with: the file of the options, else that of the schema. -/
def label (r : Request) (sources : Sources) : String := sources.configPath.getD r.schemaPath

end Request

variable {m : Type → Type} [Monad m] [Storage m]

def loadSources (r : Request) (override : Option String) : m (Except LoadFailure Sources) := do
  match ← loadSchema r.schemaPath with
  | .error failure => return .error failure
  | .ok document =>
    let configPath := r.configPath? override
    match ← loadConfig configPath with
    | .error failure => return .error failure
    | .ok config => return .ok { document, config, configPath }

def perform (r : Request) (sources : Sources) : m Ending := do
  match r.command with
  | .check =>
    let report := check sources.document sources.config
    let lines := report.lines (r.label sources)
    return if report.isValid then .done lines else .rejected lines
  | .generate =>
    let options := r.generateOptions sources.config
    match ← generate sources.document sources.config options with
    | .error failure => return .failed failure
    | .ok report => return .done (report.lines options)
  | .clean =>
    let options := r.cleanOptions sources.config
    match ← clean sources.document sources.config options with
    | .error failure => return .failed failure
    | .ok report => return .done (report.lines options)

def execute (override : Option String) (words : List String) : m Ending := do
  match Request.read? words with
  | none => return .misused
  | some request =>
    match ← loadSources request override with
    | .error failure => return .unloaded failure
    | .ok sources => perform request sources

end GraphqlCrud.Command
