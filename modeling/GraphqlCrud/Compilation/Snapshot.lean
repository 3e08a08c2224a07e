import GraphqlCrud.Compilation.Run
import GraphqlCrud.Json.Pretty
/-!
Snapshots show how far a run has come after each of its phases.
-/
namespace GraphqlCrud

/-- A compilation as it is after a phase. -/
structure Snapshot where
  phase : String
  models : List String
  plan : Option Plan
  findings : List Finding
deriving Repr, DecidableEq

namespace Snapshot

def take (phase : String) (c : Compilation) : Snapshot :=
  { phase, models := c.document.models.map (·.name), plan := c.plan, findings := c.findings }

/-- An observer that takes a snapshot after every phase and has it kept among the notes. -/
def observer {κ : Type} (keep : κ → Snapshot → κ) : Observer κ where
  after phase p := ({ p with notes := keep p.notes (take phase p.compilation) }, none)

/-! Snapshots in writing -/

open Json (Written)

private def operations (l : List Operation) : Written := .texts (l.map (·.name))

private def plannedModel (m : ModelOperations) : Written := .object [
  ("name", .text m.model),
  ("queries", operations m.queries),
  ("mutations", operations m.mutations)]

private def plannedResolver (r : Resolver) : Written := .object [
  ("resolver_name", .text r.name),
  ("model_name", .text r.model),
  ("kind", .text r.rootType.name),
  ("operation", .text r.operation.name)]

private def writtenPlan (p : Plan) : Written := .object [
  ("models", .list (p.models.map plannedModel)),
  ("records", .list (p.resolvers.map plannedResolver))]

private def writtenFinding (f : Finding) : Written := .object (
  [("severity", .text f.severity.word), ("phase", .text f.phase)] ++
  (f.lint.toList.map fun name => ("lint", .text name)) ++
  [("message", .text f.message),
    ("location", match f.location with
      | some place => .text place
      | none => .null)])

/-- The snapshot in writing. A plan that there is not yet is left out. -/
def written (s : Snapshot) : Written := .object (
  [("phase", .text s.phase), ("models", .texts s.models)] ++
  (s.plan.toList.map fun plan => ("plan", writtenPlan plan)) ++
  [("diagnostics", .list (s.findings.map writtenFinding))])

def text (s : Snapshot) : String := s.written 0

def fileName (s : Snapshot) : String := s.phase ++ ".json"

end Snapshot
end GraphqlCrud
