import GraphqlCrud.Command.Generate
import GraphqlCrud.Proofs.Compilation.Acceptance
import GraphqlCrud.Proofs.Storage.Store
/-!
The steps of the generation. Its run keeps snapshots or not, and compiles the same either way; a
document that is refused leads to no further step. Storing snapshots makes their directory and writes
their files, and nothing else.
-/
namespace GraphqlCrud.Command

open Schema Disk Storage GraphqlCrud.Path

/-- The snapshots of an accepted document: after validation, and after the analysis. -/
def snapshots (document : Document) (config : Config) : List Snapshot :=
  let linted := Phase.linted Lint.standard { document, config }
  [.take Lint.phase linted, .take Phase.analysisName (Phase.analyzed linted)]

/-- The snapshots of an accepted document that a run keeps. -/
def keptSnapshots (document : Document) (config : Config) (keepsSnapshots : Bool) :
    List Snapshot :=
  if keepsSnapshots then snapshots document config else []

theorem planned_eq (document : Document) (config : Config) (keepsSnapshots : Bool) :
    planned document config keepsSnapshots =
      match compile document config with
      | .error stop => .error (.stopped stop)
      | .ok c => .ok (c, Plan.build document config.crud,
          keptSnapshots document config keepsSnapshots) := by
  have plan : (Phase.analyzed (Phase.linted Lint.standard { document, config })).planned =
      .ok (Plan.build document config.crud) := rfl
  rw [compile_eq, planned]
  simp only [Pipeline.run, Pipeline.phases, snapshotPipeline, Phase.observed, Phase.event,
    Phase.validate, Phase.analyze, Event.inTurn, List.map_cons, List.map_nil]
  -- An observer only adds to the notes, so it neither stops the run nor changes what is compiled.
  by_cases errors : (Phase.linted Lint.standard { document, config }).hasErrors <;>
    cases keepsSnapshots <;>
      simp [errors, plan, Event.inTurn, Event.idle, Snapshot.observer, keptSnapshots,
        snapshots]

variable {document : Document} {config : Config}

/-- A refused document leads to no request at all. -/
theorem generate_of_error {m : Type → Type} [Monad m] [Storage m] {stop : Stop}
    (refused : compile document config = .error stop) (options : GenerateOptions) :
    generate document config options =
      (pure (.error (.stopped stop)) : m (Except Failure GenerateReport)) := by
  rw [generate, planned_eq, refused]

/-- The report on an accepted document and what came of its files. -/
def reportOn (c : Compilation) (plan : Plan) (result : GenerateResult) : GenerateReport :=
  { warnings := c.warnings.map (·.message)
    modelCount := plan.models.length
    resolverCount := plan.resolverCount
    result }

/-- The steps of the generation for an accepted document. -/
theorem run_generate_of_ok {c : Compilation} (accepted : compile document config = .ok c)
    (options : GenerateOptions) (d : Disk) :
    (generate document config options : StateM Disk (Except Failure GenerateReport)).run d =
      match (produce c (Plan.build document config.crud) options :
        StateM Disk (Except Failure GenerateResult)).run d with
      | (.error failure, e) => (.error failure, e)
      | (.ok result, e) =>
        match (storeSnapshots (snapshotDirectory options.outputDir)
          (keptSnapshots document config options.keepsSnapshots) :
            StateM Disk (Except SnapshotFailure Unit)).run e with
        | (.error failure, f) => (.error (.snapshots failure), f)
        | (.ok (), f) => (.ok (reportOn c (Plan.build document config.crud) result), f) := by
  rw [generate, planned_eq, accepted]
  dsimp only
  rw [run_bind]
  rcases (produce c (Plan.build document config.crud) options :
    StateM Disk (Except Failure GenerateResult)).run d with ⟨failure | result, e⟩
  · rfl
  · dsimp only
    rw [run_bind]
    rcases (storeSnapshots (snapshotDirectory options.outputDir)
      (keptSnapshots document config options.keepsSnapshots) :
        StateM Disk (Except SnapshotFailure Unit)).run e with ⟨failure | ⟨⟩, f⟩ <;> rfl

/-! Storing snapshots -/

/-- Where a snapshot is stored in a directory. -/
def snapshotPath (directory : String) (s : Snapshot) : String := join directory s.fileName

/-- The snapshots are there in writing. -/
def HoldsSnapshots (d : Disk) (directory : String) (kept : List Snapshot) : Prop :=
  ∀ s ∈ kept, d.read? (snapshotPath directory s) = some s.text

/-- Where snapshots stand in a directory. -/
def snapshotPlaces (d : Disk) (directory : String) (kept : List Snapshot) : List Place :=
  kept.map fun s => d.place (snapshotPath directory s)

variable {d e : Disk} {directory : String} {kept : List Snapshot}

theorem run_storeSnapshots_cons (directory : String) (s : Snapshot) (rest : List Snapshot)
    (d : Disk) :
    (storeSnapshots directory (s :: rest) : StateM Disk (Except SnapshotFailure Unit)).run d =
      match d.makeDirectory directory with
      | (false, e) => (.error (.create directory), e)
      | (true, e) =>
        match e.write (snapshotPath directory s) s.text with
        | (false, f) => (.error (.write (snapshotPath directory s)), f)
        | (true, f) =>
          (storeSnapshots directory rest : StateM Disk (Except SnapshotFailure Unit)).run f := by
  have made : (Storage.makeDirectory directory : StateM Disk Bool).run d =
    d.makeDirectory directory := rfl
  rw [storeSnapshots, run_bind, made]
  rcases d.makeDirectory directory with ⟨_ | _, e⟩
  · rfl
  have written : (Storage.write (snapshotPath directory s) s.text : StateM Disk Bool).run e =
    e.write (snapshotPath directory s) s.text := rfl
  change ((Storage.write (snapshotPath directory s) s.text : StateM Disk Bool) >>= fun written =>
    if !written then pure (.error (.write (snapshotPath directory s)))
    else storeSnapshots directory rest :
      StateM Disk (Except SnapshotFailure Unit)).run e = _
  rw [run_bind, written]
  dsimp only
  rcases e.write (snapshotPath directory s) s.text with ⟨_ | _, f⟩ <;> rfl

/-- Storing snapshots makes directories and writes at their places, and without a failure all of
them are there in the end. -/
theorem storeSnapshots_spec {answer : Except SnapshotFailure Unit}
    (run : (storeSnapshots directory kept : StateM Disk (Except SnapshotFailure Unit)).run d =
      (answer, e))
    (distinct : (snapshotPlaces d directory kept).Nodup) :
    Grows (snapshotPlaces d directory kept) d e ∧
      (answer = .ok () → HoldsSnapshots e directory kept) := by
  induction kept generalizing d with
  | nil =>
    obtain ⟨-, rfl⟩ := Prod.mk.inj run
    exact ⟨.refl _ d, fun _ => nofun⟩
  | cons s rest ih =>
    obtain ⟨apart, distinct⟩ := List.nodup_cons.mp distinct
    rw [run_storeSnapshots_cons] at run
    split at run
    · next unmade =>
      obtain ⟨rfl, rfl⟩ := Prod.mk.inj run
      exact ⟨(grows_makeDirectory unmade).mono (List.nil_subset _), nofun⟩
    next housed made =>
    have first := grows_makeDirectory made
    split at run
    · next unwritten =>
      obtain ⟨rfl, rfl⟩ := Prod.mk.inj run
      obtain rfl := eq_of_write_eq_false unwritten
      exact ⟨first.mono (List.nil_subset _), nofun⟩
    next between written =>
    have second := first.trans (grows_write written)
    rw [place_congr first.origin] at second
    have places : snapshotPlaces between directory rest = snapshotPlaces d directory rest :=
      List.map_congr_left fun _ _ => place_congr second.origin _
    obtain ⟨third, held⟩ := ih run (by rwa [places])
    rw [places] at third
    refine ⟨second.trans third, fun success => List.forall_mem_cons.mpr ⟨?_, held success⟩⟩
    -- What is stored later is at other places.
    refine third.read? ?_ (read?_of_write written)
    rwa [place_congr second.origin]

/-- Storing snapshots that are there already changes nothing. -/
theorem run_storeSnapshots_of_holds (words : ∀ s ∈ kept, IsPart s.fileName)
    (holds : HoldsSnapshots d directory kept) :
    (storeSnapshots directory kept : StateM Disk (Except SnapshotFailure Unit)).run d =
      (.ok (), d) := by
  induction kept with
  | nil => rfl
  | cons s rest ih =>
    obtain ⟨word, words⟩ := List.forall_mem_cons.mp words
    obtain ⟨held, holds⟩ := List.forall_mem_cons.mp holds
    rw [run_storeSnapshots_cons, makeDirectory_of_read? word held]
    dsimp only
    rw [write_of_read? held]
    exact ih words holds

end GraphqlCrud.Command
