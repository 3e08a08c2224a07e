import GraphqlCrud.Command.Check
import GraphqlCrud.Command.Clean
import GraphqlCrud.Proofs.Command.Generation
import GraphqlCrud.Proofs.Plan.Resolvers
/-!
The commands agree. A check goes through the phases on its own, but it finds errors exactly in the
documents that the run behind the other commands refuses, and it counts what that run plans.
-/
namespace GraphqlCrud

open Schema

namespace Phase

/-- What is said of a plan is neither an error nor a warning. -/
theorem severity_planFindings {document : Document} {plan : Plan} {f : Finding}
    (hf : f ∈ planFindings document plan) : f.severity = .info := by
  rw [planFindings, List.mem_append] at hf
  rcases hf with dropped | idle
  · split at dropped
    · obtain rfl := List.mem_singleton.mp dropped
      rfl
    · cases dropped
  · obtain ⟨m, -, rfl⟩ := List.mem_map.mp idle
    rfl

theorem errors_analyzed (c : Compilation) : (analyzed c).errors = c.errors := by
  have said : (planFindings c.document (Plan.build c.document c.config.crud)).filter (·.isError) =
      [] := by
    refine List.filter_eq_nil_iff.mpr fun f hf => ?_
    simp [Finding.isError, severity_planFindings hf]
  have findings : (analyzed c).findings =
      c.findings ++ planFindings c.document (Plan.build c.document c.config.crud) := rfl
  rw [Compilation.errors, findings, List.filter_append, said, List.append_nil, Compilation.errors]

end Phase

namespace Command

variable {document : Document} {config : Config}

theorem errors_eq_nil_iff (c : Compilation) : c.errors = [] ↔ c.hasErrors = false := by
  simp [Compilation.errors, Compilation.hasErrors, List.filter_eq_nil_iff]

/-- The check of a refused document counts its errors like the run, and has no models. -/
theorem check_of_error {stop : Stop} (refused : compile document config = .error stop) :
    stop = .invalid (check document config).errors.length ∧
      (check document config).errors ≠ [] ∧ (check document config).models = [] := by
  rw [compile_eq] at refused
  dsimp only at refused
  split at refused
  · next errors =>
    obtain rfl := Except.error.inj refused
    have examined : examine document config =
        Phase.linted Lint.standard { document, config } := by rw [examine, if_pos errors]
    refine ⟨?_, ?_, by rw [check, examined]; rfl⟩
    · rw [check, examined, List.length_map]
    · intro none
      rw [check, examined, List.map_eq_nil_iff] at none
      rw [(errors_eq_nil_iff _).mp none] at errors
      cases errors
  · cases refused

/-- The check of an accepted document examines what the run compiles, and finds no error there. -/
theorem check_of_ok {c : Compilation} (accepted : compile document config = .ok c) :
    examine document config = c ∧ (check document config).errors = [] ∧
      c.plan = some (Plan.build document config.crud) := by
  rw [compile_eq] at accepted
  dsimp only at accepted
  split at accepted
  · cases accepted
  · next errors =>
    obtain rfl := Except.ok.inj accepted
    have examined : examine document config =
        Phase.analyzed (Phase.linted Lint.standard { document, config }) := by
      rw [examine, if_neg errors]
    refine ⟨examined, ?_, rfl⟩
    rw [check, examined, List.map_eq_nil_iff, Phase.errors_analyzed, errors_eq_nil_iff]
    simpa using errors

theorem clean_of_error {m : Type → Type} [Monad m] [Storage m] {stop : Stop}
    (refused : compile document config = .error stop) (options : CleanOptions) :
    clean document config options =
      (pure (.error (.stopped stop)) : m (Except Failure CleanReport)) := by
  rw [clean, refused]

/-- A report of the generation is made from the compilation and its plan. -/
theorem exists_of_run_generate {c : Compilation} (accepted : compile document config = .ok c)
    {options : GenerateOptions} {d e : Disk} {report : GenerateReport}
    (run : (generate document config options :
      StateM Disk (Except Failure GenerateReport)).run d = (.ok report, e)) :
    ∃ result, report = reportOn c (Plan.build document config.crud) result := by
  rw [run_generate_of_ok accepted] at run
  split at run
  · cases (Prod.mk.inj run).1
  · next result _ _ =>
    split at run
    · cases (Prod.mk.inj run).1
    · exact ⟨result, (Except.ok.inj (Prod.mk.inj run).1).symm⟩

/-- What the text of a finding has after its message. -/
def locationSuffix (f : Finding) : String :=
  match f.location with
  | some place => "\n  --> " ++ place
  | none => ""

theorem findingText_eq (f : Finding) :
    CheckReport.findingText f = f.message ++ locationSuffix f := by
  cases place : f.location with
  | some place => simp only [CheckReport.findingText, locationSuffix, place, String.append_assoc]
  | none => simp only [CheckReport.findingText, locationSuffix, place, String.append_empty]

/-- The commands on a refused document: the check says what is wrong, and the others do nothing. -/
structure IsRefused (document : Document) (config : Config) (stop : Stop) : Prop where
  invalid : (check document config).isValid = false
  message : stop.message =
    "validation failed with " ++ toString (check document config).errors.length ++ " error(s)"
  models : (check document config).models = []
  generate : ∀ (options : GenerateOptions) (d : Disk),
    (generate document config options : StateM Disk (Except Failure GenerateReport)).run d =
      (.error (.stopped stop), d)
  clean : ∀ (options : CleanOptions) (d : Disk),
    (clean document config options : StateM Disk (Except Failure CleanReport)).run d =
      (.error (.stopped stop), d)

/-- The commands on an accepted document: the check summarizes its plan, and every report of the
generation has the same numbers and, without the places, the same warnings. -/
structure IsSummarized (document : Document) (config : Config) (c : Compilation) : Prop where
  valid : (check document config).isValid = true
  models : ∃ plan, c.plan = some plan ∧
    (check document config).models = plan.models.map fun m =>
      { name := m.model, queries := m.queries.length, mutations := m.mutations.length }
  counts : ∀ (options : GenerateOptions) (d e : Disk) (report : GenerateReport),
    (Command.generate document config options :
      StateM Disk (Except Failure GenerateReport)).run d = (.ok report, e) →
    report.modelCount = (check document config).models.length ∧
      report.resolverCount =
        ((check document config).models.map fun m => m.queries + m.mutations).sum
  warnings : ∀ (options : GenerateOptions) (d e : Disk) (report : GenerateReport),
    (Command.generate document config options :
      StateM Disk (Except Failure GenerateReport)).run d = (.ok report, e) →
    report.warnings = c.warnings.map (·.message) ∧
      (check document config).warnings =
        List.zipWith (· ++ ·) report.warnings (c.warnings.map locationSuffix)

theorem isRefused_of_error {stop : Stop} (refused : compile document config = .error stop) :
    IsRefused document config stop := by
  obtain ⟨rfl, errors, models⟩ := check_of_error refused
  refine { invalid := ?_, message := rfl, models, generate := ?_, clean := ?_ }
  · rw [CheckReport.isValid, List.isEmpty_eq_false_iff]
    exact errors
  · intro options d
    rw [generate_of_error refused]
    rfl
  · intro options d
    rw [clean_of_error refused]
    rfl

theorem isSummarized_of_ok {c : Compilation} (accepted : compile document config = .ok c) :
    IsSummarized document config c := by
  obtain ⟨examined, errors, planned⟩ := check_of_ok accepted
  have models : (check document config).models =
      (Plan.build document config.crud).models.map ModelSummary.ofOperations := by
    rw [check, examined, planned]
    rfl
  refine { valid := ?_, models := ⟨_, planned, models⟩, counts := ?_, warnings := ?_ }
  · rw [CheckReport.isValid, errors]
    rfl
  · intro options d e report run
    obtain ⟨result, rfl⟩ := exists_of_run_generate accepted run
    have resolvers : (Plan.build document config.crud).resolverCount =
        ((Plan.build document config.crud).models.map fun m =>
          m.queries.length + m.mutations.length).sum := by
      rw [Plan.resolverCount_build]
      exact congrArg List.sum (List.map_congr_left fun m _ => List.length_append)
    rw [models, List.map_map]
    exact ⟨(List.length_map _).symm, resolvers⟩
  · intro options d e report run
    obtain ⟨result, rfl⟩ := exists_of_run_generate accepted run
    have texts : (check document config).warnings = c.warnings.map CheckReport.findingText := by
      rw [check, examined]
    refine ⟨rfl, ?_⟩
    rw [texts, reportOn, List.zipWith_map, List.zipWith_self]
    exact List.map_congr_left fun f _ => findingText_eq f

/-- The check finds errors exactly where the run is stopped, and then no command does anything; where
it finds none, it tells what the run plans and warns of. -/
theorem commands_agree (document : Document) (config : Config) :
    ((check document config).isValid = true ↔ (compile document config).isOk = true) ∧
      match compile document config with
      | .error stop => IsRefused document config stop
      | .ok c => IsSummarized document config c := by
  cases compiled : compile document config with
  | error stop =>
    have refused := isRefused_of_error compiled
    exact ⟨by simp [refused.invalid, Except.isOk, Except.toBool], refused⟩
  | ok c =>
    have summarized := isSummarized_of_ok compiled
    exact ⟨by simp [summarized.valid, Except.isOk, Except.toBool], summarized⟩

end Command
end GraphqlCrud
