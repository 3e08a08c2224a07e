import GraphqlCrud.Proofs.Command.Agreement
import GraphqlCrud.Proofs.Storage.Remains
/-!
The removal of generated files. It tells whether there was a directory by what comes of removing it,
and its dry run by looking for it; the two give the same report on every disk where the removal does
not fail. Nothing outside of the directory changes, and there is nothing for a second removal to do.
-/
namespace GraphqlCrud.Command

open Schema Disk Storage

variable {document : Document} {config : Config} {c : Compilation} {directory : String}
  {before after : Disk} {answer : Except Failure CleanReport}

theorem run_dryClean (accepted : compile document config = .ok c) (directory : String) (d : Disk) :
    (clean document config { outputDir := directory, isDryRun := true } :
      StateM Disk (Except Failure CleanReport)).run d =
      (.ok { warnings := c.warnings.map (·.message), removed := d.isDirectory directory }, d) := by
  rw [clean, accepted]
  rfl

theorem run_clean (accepted : compile document config = .ok c) (directory : String) (d : Disk) :
    (clean document config { outputDir := directory } :
      StateM Disk (Except Failure CleanReport)).run d =
      match d.remove directory with
      | (.removed, e) => (.ok { warnings := c.warnings.map (·.message), removed := true }, e)
      | (.absent, e) => (.ok { warnings := c.warnings.map (·.message), removed := false }, e)
      | (.failed, e) => (.error (.removal (.delete directory)), e) := by
  have asked : (Storage.remove directory : StateM Disk Removal).run d = d.remove directory := rfl
  rw [clean, accepted]
  dsimp only
  rw [run_bind, removeOutput, if_neg Bool.false_ne_true, removeIfPresent, run_bind, asked]
  rcases d.remove directory with ⟨_ | _ | _, e⟩ <;> rfl

/-- A clean of a directory, from the disk before it to the answer and the disk after it. -/
structure IsThorough (document : Document) (config : Config) (directory : String)
    (before after : Disk) (answer : Except Failure CleanReport) : Prop where
  /-- It fails only where the directory cannot be removed: something else is in the way, or the path
  has no name for it. -/
  failed : ∀ failure, answer = .error failure →
    failure = .removal (.delete directory) ∧ before.find directory ≠ .error .missing ∧
      (before.isDirectory directory = true → endsWithName directory = false)
  /-- Nothing is left where the directory was, as long as the removal takes the directory itself. -/
  gone : ∀ report, answer = .ok report → report.removed = true →
    before.RemovesWhole directory →
      ∀ p, isWithin (before.place directory) p = true → after.node? p = none
  /-- In any case nothing is left below it, and its path is missing. -/
  vacant : ∀ report, answer = .ok report → report.removed = true →
    after.find directory = .error .missing ∧
      ∀ p, isWithin (before.place directory) p = true → p ≠ before.place directory →
        after.node? p = none
  still : ∀ report, answer = .ok report → report.removed = false → after = before
  /-- Nothing else changes, whatever the answer. -/
  frame : ∀ p, isWithin (before.place directory) p = false → after.node? p = before.node? p
  origin : after.workingDirectory = before.workingDirectory
  previewed : ∀ report, answer = .ok report →
    (clean document config { outputDir := directory, isDryRun := true } :
      StateM Disk (Except Failure CleanReport)).run before = (.ok report, before)
  settled : ∀ report, answer = .ok report →
    (clean document config { outputDir := directory } :
      StateM Disk (Except Failure CleanReport)).run after =
        (.ok { report with removed := false }, after)

/-- A clean that finds nothing to remove reports so and changes nothing. -/
theorem run_clean_of_missing (accepted : compile document config = .ok c) {d : Disk}
    (missing : d.find directory = .error .missing) :
    (clean document config { outputDir := directory } :
      StateM Disk (Except Failure CleanReport)).run d =
      (.ok { warnings := c.warnings.map (·.message), removed := false }, d) := by
  have absent : d.remove directory = (.absent, d) := by rw [Disk.remove, missing]
  rw [run_clean accepted, absent]

theorem isThorough_of_failed (removes : Removes before directory .failed after) :
    IsThorough document config directory before after
      (.error (.removal (.delete directory))) where
  failed _ same := by
    obtain rfl := Except.error.inj same
    refine ⟨rfl, ?_, ?_⟩
    · cases removes with
      | refused present => exact present
      | kept found => simp [found]
    · intro there
      cases removes with
      | refused _ other => rw [other] at there; cases there
      | kept _ nameless => exact nameless
  gone _ same := nomatch same
  vacant _ same := nomatch same
  still _ same := nomatch same
  frame _ := removes.outside
  origin := removes.origin
  previewed _ same := nomatch same
  settled _ same := nomatch same

theorem isThorough_of_absent (accepted : compile document config = .ok c)
    (missing : before.find directory = .error .missing) :
    IsThorough document config directory before before
      (.ok { warnings := c.warnings.map (·.message), removed := false }) where
  failed _ same := nomatch same
  gone _ same removed := by cases same; cases removed
  vacant _ same removed := by cases same; cases removed
  still _ _ _ := rfl
  frame _ _ := rfl
  origin := rfl
  previewed _ same := by
    obtain rfl := Except.ok.inj same
    rw [run_dryClean accepted, Disk.isDirectory, missing]
  settled _ same := by
    obtain rfl := Except.ok.inj same
    exact run_clean_of_missing accepted missing

theorem isThorough_of_removed (accepted : compile document config = .ok c)
    (removal : before.remove directory = (.removed, after)) :
    IsThorough document config directory before after
      (.ok { warnings := c.warnings.map (·.message), removed := true }) := by
  have removes := removes_of_remove removal
  refine { failed := fun _ same => (nomatch same), gone := ?_,
           vacant := fun _ _ _ => ⟨removes.find_eq_missing, fun _ => removes.below⟩, still := ?_,
           frame := fun _ => removes.outside, origin := removes.origin, previewed := ?_,
           settled := ?_ }
  · intro _ _ _ whole p within
    by_cases top : p = before.place directory
    · rw [top]
      exact whole after removal
    · exact removes.below within top
  · intro _ same kept
    obtain rfl := Except.ok.inj same
    cases kept
  · intro _ same
    obtain rfl := Except.ok.inj same
    rw [run_dryClean accepted, removes.isDirectory_eq nofun]
    rfl
  · intro _ same
    obtain rfl := Except.ok.inj same
    exact run_clean_of_missing accepted removes.find_eq_missing

/-- On any disk, the clean of any directory for an accepted document is thorough. -/
theorem clean_isThorough (accepted : (compile document config).isOk = true)
    (run : (clean document config { outputDir := directory } :
      StateM Disk (Except Failure CleanReport)).run before = (answer, after)) :
    IsThorough document config directory before after answer := by
  obtain ⟨c, compiled⟩ : ∃ c, compile document config = .ok c := by
    cases compiled : compile document config with
    | error => rw [compiled] at accepted; cases accepted
    | ok c => exact ⟨c, rfl⟩
  rw [run_clean compiled] at run
  rcases removal : before.remove directory with ⟨outcome, e⟩
  rw [removal] at run
  cases outcome with
  | removed =>
    obtain ⟨rfl, rfl⟩ := Prod.mk.inj run
    exact isThorough_of_removed compiled removal
  | absent =>
    obtain ⟨rfl, rfl⟩ := Prod.mk.inj run
    obtain ⟨rfl, missing⟩ := remove_eq_absent removal
    exact isThorough_of_absent compiled missing
  | failed =>
    obtain ⟨rfl, rfl⟩ := Prod.mk.inj run
    exact isThorough_of_failed (removes_of_remove removal)

/-- A disk with a file in a directory of output, and another file next to it. -/
def builtDisk : Disk :=
  let d := ((blank "home").makeDirectory "out/user").2
  let d := (d.write "out/user/query.ts" "export {};\n").2
  (d.write "schema.ts" "import './out/user/query';\n").2

def firstClean : Except Failure CleanReport × Disk :=
  (clean { models := [] } { crud := { isDisabled := true } } { outputDir := "out" } :
    StateM Disk (Except Failure CleanReport)).run builtDisk

theorem firstClean_isThorough :
    ∃ report after, firstClean = (.ok report, after) ∧ report.removed = true ∧
      builtDisk.RemovesWhole "out" ∧ (builtDisk.read? "out/user/query.ts").isSome = true ∧
      (after.read? "schema.ts").isSome = true ∧
      IsThorough { models := [] } { crud := { isDisabled := true } } "out" builtDisk after
        (.ok report) := by
  have ok : firstClean.1.toOption.map (·.removed) = some true := by decide +kernel
  have kept : (firstClean.2.read? "schema.ts").isSome = true := by decide +kernel
  rcases run : firstClean with ⟨failure | report, after⟩
  · rw [run] at ok
    cases ok
  · rw [run] at ok kept
    refine ⟨report, after, rfl, Option.some.inj ok, removesWhole_iff.mpr fun _ => by decide,
      by decide +kernel, kept, ?_⟩
    rw [firstClean] at run
    exact clean_isThorough (by decide +kernel) run

end GraphqlCrud.Command
