import GraphqlCrud.Compilation.Run
import GraphqlCrud.Proofs.Lint.Errors
/-!
Which documents the standard phases accept. Planning never stops a run, so all that can refuse a
document is an error of a lint; and a repeated model name is an error only where the first name of
its lowercase form is the name itself.
-/
namespace GraphqlCrud

open Schema

theorem compile_eq (document : Document) (config : Config) :
    compile document config =
      let linted := Phase.linted Lint.standard { document, config }
      if linted.hasErrors then .error (.invalid linted.errors.length)
      else .ok (Phase.analyzed linted) := by
  simp only [compile, Pipeline.run, Pipeline.phases, Phase.observed, Phase.event, Phase.validate,
    Phase.analyze, Event.inTurn, List.map_cons, List.map_nil]
  by_cases errors : (Phase.linted Lint.standard { document, config }).hasErrors <;>
    simp [errors]

theorem hasErrors_linted (lints : List Lint) (document : Document) (config : Config) :
    (Phase.linted lints { document, config }).hasErrors = false ↔
      ∀ l ∈ lints, l.Passes document config := by
  simp only [Lint.passes_iff_findings, Phase.linted, Compilation.withFindings,
    Compilation.hasErrors, List.nil_append, List.any_flatMap, List.any_eq_false,
    Bool.not_eq_true]

/-- A document is accepted exactly when every relation leads to one of its models, and no model
repeats a name unless a model with another spelling of the name comes before both. -/
theorem isOk_compile_iff (document : Document) (config : Config) :
    (compile document config).isOk = true ↔
      Lint.RepeatsAreHidden (document.models.map (·.name)) ∧ Lint.RelationsResolve document := by
  rw [← Lint.standard_pass_iff document config, ← hasErrors_linted, compile_eq]
  by_cases errors : (Phase.linted Lint.standard { document, config }).hasErrors <;>
    simp [errors, Except.isOk, Except.toBool]

/-- Three models without fields. The second name is the first in lower case, and the third repeats
the second. -/
def respelledModels : Document :=
  { models := ["User", "user", "user"].map fun name => { name, fields := [] } }

/-- The repetition of `user` is compared with `User` alone, so it is taken for another spelling. -/
theorem respelled_repeat_accepted :
    (compile respelledModels {}).isOk = true ∧
      ¬ (respelledModels.models.map (·.name)).Nodup := by
  constructor
  · decide +kernel
  · decide

end GraphqlCrud
