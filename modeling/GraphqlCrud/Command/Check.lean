import GraphqlCrud.Command.Report
import GraphqlCrud.Compilation.Run
/-!
The check of a schema and its options. Unlike other commands it does not stop at errors without
saying what they are.
-/
namespace GraphqlCrud.Command

structure ModelSummary where
  name : String
  queries : Nat
  mutations : Nat
deriving Repr, DecidableEq

/-- What a check has to say. There are models only if there are no errors. -/
structure CheckReport where
  errors : List String
  warnings : List String
  infos : List String
  models : List ModelSummary
deriving Repr, DecidableEq

def ModelSummary.ofOperations (m : ModelOperations) : ModelSummary :=
  { name := m.model, queries := m.queries.length, mutations := m.mutations.length }

/-- The schema after validation, and after the analysis if there are no errors. -/
def examine (document : Schema.Document) (config : Config) : Compilation :=
  let validated := Phase.linted Lint.standard { document, config }
  if validated.hasErrors then validated else Phase.analyzed validated

/-- A finding, with the place that it is about on a line of its own. -/
def CheckReport.findingText (f : Finding) : String :=
  match f.location with
  | some place => f.message ++ "\n  --> " ++ place
  | none => f.message

def check (document : Schema.Document) (config : Config) : CheckReport :=
  let c := examine document config
  { errors := c.errors.map CheckReport.findingText
    warnings := c.warnings.map CheckReport.findingText
    infos := (c.findings.filter (·.severity == .info)).map CheckReport.findingText
    models := ((c.plan.map (·.models)).getD []).map .ofOperations }

namespace CheckReport

def isValid (r : CheckReport) : Bool := r.errors.isEmpty

def modelLine (m : ModelSummary) : ReportLine :=
  .detail m.name (toString m.queries ++ " queries, " ++ toString m.mutations ++ " mutations")

def summary (r : CheckReport) (label : String) : Report :=
  [.plain ("✓ " ++ label ++ " is valid"), .blank,
    .heading (toString r.models.length ++ " model" ++ if r.models.length = 1 then "" else "s")] ++
    r.models.map modelLine

def lines (r : CheckReport) (label : String) : Report :=
  r.errors.map (fun text => .warning ("error: " ++ text)) ++
    r.warnings.map (fun text => .warning ("warning: " ++ text)) ++
    r.infos.map (fun text => .plain ("info: " ++ text)) ++
    (if r.errors.isEmpty && r.warnings.isEmpty then [] else [.blank]) ++
    if r.isValid then r.summary label else []

end CheckReport
end GraphqlCrud.Command
