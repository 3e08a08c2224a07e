import GraphqlCrud.Compilation.Basic
import GraphqlCrud.Lint.Basic
/-!
Phases of a run. Every run first validates its schema and then plans its resolvers; other phases
may follow.
-/
namespace GraphqlCrud

/-- A phase adds to a compilation, and may stop the run. -/
structure Phase where
  name : String
  description : String
  run : Compilation → Compilation × Option Stop

namespace Phase

def linted (lints : List Lint) (c : Compilation) : Compilation :=
  c.withFindings (lints.flatMap (·.findings c.document c.config))

/-- Validation stops a run that has errors, whoever found them. -/
def validate (lints : List Lint) : Phase where
  name := Lint.phase
  description := "Check schema and config integrity and collect diagnostics"
  run c :=
    let c := linted lints c
    (c, if c.hasErrors then some (.invalid c.errors.length) else none)

def analysisName : String := "analyze"

def droppedCount (document : Schema.Document) (plan : Plan) : Nat :=
  document.models.length * Operation.all.length - plan.resolverCount

private def note (message : String) : Finding :=
  { severity := .info, phase := analysisName, message }

/-- What there is to say about the resolvers that a plan does not have. -/
def planFindings (document : Schema.Document) (plan : Plan) : List Finding :=
  let dropped := droppedCount document plan
  (if dropped > 0 then
    [note (toString dropped ++ " resolver(s) filtered out by include/exclude rules")]
  else []) ++
    (plan.models.filter (·.isEmpty)).map fun m =>
      note ("model '" ++ m.model ++ "' has no resolvers after filtering")

def analyzed (c : Compilation) : Compilation :=
  let plan := Plan.build c.document c.config.crud
  { c.withFindings (planFindings c.document plan) with plan := some plan }

def analyze : Phase where
  name := analysisName
  description := "Apply resolver filters and build the CRUD plan"
  run c := (analyzed c, none)

end Phase
end GraphqlCrud
