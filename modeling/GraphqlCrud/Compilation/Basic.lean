import GraphqlCrud.Finding
import GraphqlCrud.Plan
/-!
A compilation: a schema, its options, and what the phases of a run have added to them.
-/
namespace GraphqlCrud

inductive Stop where
  | invalid (errors : Nat)
  | unplanned
  | refused (reason : String)
deriving Repr, DecidableEq

def Stop.message : Stop → String
  | .invalid errors => "validation failed with " ++ toString errors ++ " error(s)"
  | .unplanned => "CRUD plan not set - did AnalyzePhase run?"
  | .refused reason => reason

structure Compilation where
  document : Schema.Document
  config : Config
  plan : Option Plan := none
  findings : List Finding := []
deriving Repr, DecidableEq

namespace Compilation

def withFindings (c : Compilation) (more : List Finding) : Compilation :=
  { c with findings := c.findings ++ more }

def errors (c : Compilation) : List Finding := c.findings.filter (·.isError)

def warnings (c : Compilation) : List Finding := c.findings.filter (·.isWarning)

def hasErrors (c : Compilation) : Bool := c.findings.any (·.isError)

def hasWarnings (c : Compilation) : Bool := c.findings.any (·.isWarning)

def findingsBySeverity (c : Compilation) : List Finding :=
  Severity.all.flatMap fun severity => c.findings.filter (·.severity == severity)

/-- The plan, which there is only once it has been made. -/
def planned (c : Compilation) : Except Stop Plan :=
  match c.plan with
  | some plan => .ok plan
  | none => .error .unplanned

end Compilation
end GraphqlCrud
