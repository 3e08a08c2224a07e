import GraphqlCrud.Proofs.Command.Generation
/-!
Dry runs of the generation. They neither delete anything nor store a generated file; but they store
the snapshots of an accepted document all the same, if these are asked for.
-/
namespace GraphqlCrud.Command

open Schema Disk Storage GraphqlCrud.Path

variable {document : Document} {config : Config} {options : GenerateOptions}

theorem fileName_eq {s : Snapshot} (hs : s ∈ snapshots document config) :
    s.fileName = "validate.json" ∨ s.fileName = "analyze.json" := by
  have validate : Lint.phase ++ ".json" = "validate.json" := by decide
  have analyze : Phase.analysisName ++ ".json" = "analyze.json" := by decide
  rw [← validate, ← analyze]
  rcases List.mem_cons.mp hs with rfl | last
  · exact .inl rfl
  · obtain rfl := List.mem_singleton.mp last
    exact .inr rfl

theorem isPart_fileName {s : Snapshot} (hs : s ∈ snapshots document config) :
    IsPart s.fileName := by
  rcases fileName_eq hs with same | same <;> rw [same]
  · exact ⟨by decide, by decide, by decide⟩
  · exact ⟨by decide, by decide, by decide⟩

/-- The two snapshots have places of their own. -/
theorem snapshotPlaces_nodup (document : Document) (config : Config) (d : Disk)
    (directory : String) : (snapshotPlaces d directory (snapshots document config)).Nodup := by
  have below : ∀ s ∈ snapshots document config,
      d.place (snapshotPath directory s) = d.place directory ++ [s.fileName] := by
    intro s hs
    have part : ∀ p ∈ [s.fileName], IsPart p := by simpa using isPart_fileName hs
    have down : ".." ∉ [s.fileName] := by
      rcases fileName_eq hs with same | same <;> rw [same] <;> decide
    have whole : ofParts [s.fileName] = s.fileName := String.intercalate_singleton
    rw [← place_join d directory part down, whole, snapshotPath]
  have names : (snapshots document config).map (·.fileName) =
      [Lint.phase ++ ".json", Phase.analysisName ++ ".json"] := rfl
  have distinct : ((snapshots document config).map (·.fileName)).Nodup := by
    rw [names]
    decide
  rw [snapshotPlaces, List.map_congr_left below]
  exact List.pairwise_map.mpr ((List.pairwise_map.mp distinct).imp fun other same =>
    other (by simpa using same))

/-- How far a dry run reaches. -/
structure IsConfined (document : Document) (config : Config) (options : GenerateOptions)
    (before after : Disk) (answer : Except Failure GenerateReport) : Prop where
  /-- Without snapshots, or without a document to make them of, nothing changes. -/
  still : options.keepsSnapshots = false ∨ (compile document config).isOk = false → after = before
  /-- A report comes with its snapshots, so that nothing changes only if they were there before. -/
  kept : options.keepsSnapshots = true → answer.isOk = true →
    HoldsSnapshots after (snapshotDirectory options.outputDir) (snapshots document config) ∧
      (after = before ↔
        HoldsSnapshots before (snapshotDirectory options.outputDir) (snapshots document config))
  /-- Nothing else is written or deleted, whatever the answer. -/
  frame : Grows (snapshotPlaces before (snapshotDirectory options.outputDir)
    (snapshots document config)) before after

/-- A dry run of an accepted document has no request but those for its snapshots. -/
theorem run_generate_of_isDryRun {c : Compilation} (dry : options.isDryRun = true)
    (accepted : compile document config = .ok c) (d : Disk) :
    ∃ report, (generate document config options :
      StateM Disk (Except Failure GenerateReport)).run d =
        match (storeSnapshots (snapshotDirectory options.outputDir)
          (keptSnapshots document config options.keepsSnapshots) :
            StateM Disk (Except SnapshotFailure Unit)).run d with
        | (.error failure, e) => (.error (.snapshots failure), e)
        | (.ok (), e) => (.ok report, e) := by
  have shown : (produce c (Plan.build document config.crud) options :
      StateM Disk (Except Failure GenerateResult)).run d =
        (.ok (.preview (Output.files c.document (Plan.build document config.crud) c.config)), d) := by
    rw [produce, if_pos dry]
    rfl
  rw [run_generate_of_ok accepted, shown]
  exact ⟨_, rfl⟩

/-- On any disk and with any options, a dry run changes nothing but the snapshots. -/
theorem dryRun_isConfined {before after : Disk} {answer : Except Failure GenerateReport}
    (dry : options.isDryRun = true)
    (run : (generate document config options : StateM Disk (Except Failure GenerateReport)).run
      before = (answer, after)) :
    IsConfined document config options before after answer := by
  rcases compiled : compile document config with stop | c
  · rw [generate_of_error compiled] at run
    obtain ⟨rfl, rfl⟩ := Prod.mk.inj run
    exact ⟨fun _ => rfl, fun _ ok => (by cases ok), .refl _ _⟩
  obtain ⟨report, requests⟩ := run_generate_of_isDryRun dry compiled before
  rw [requests] at run
  cases keeps : options.keepsSnapshots with
  | false =>
    rw [keeps] at run
    obtain ⟨rfl, rfl⟩ := Prod.mk.inj run
    exact ⟨fun _ => rfl, by simp [keeps], .refl _ _⟩
  | true =>
    have still : options.keepsSnapshots = false ∨ (compile document config).isOk = false →
        after = before := by
      rw [keeps, compiled]
      rintro (none | refused) <;> contradiction
    rw [keeps, keptSnapshots, if_pos rfl] at run
    rcases stored : (storeSnapshots (snapshotDirectory options.outputDir)
      (snapshots document config) : StateM Disk (Except SnapshotFailure Unit)).run before
      with ⟨outcome, e⟩
    obtain ⟨grows, held⟩ := storeSnapshots_spec stored (snapshotPlaces_nodup ..)
    rw [stored] at run
    cases outcome with
    | error failure =>
      obtain ⟨rfl, rfl⟩ := Prod.mk.inj run
      exact ⟨still, fun _ ok => (by cases ok), grows⟩
    | ok =>
      obtain ⟨rfl, rfl⟩ := Prod.mk.inj run
      refine ⟨still, fun _ _ => ⟨held rfl, ?_, ?_⟩, grows⟩
      · rintro rfl
        exact held rfl
      · intro holds
        rw [run_storeSnapshots_of_holds (fun s => isPart_fileName) holds] at stored
        exact (Prod.mk.inj stored).2.symm

/-- A dry run, on a disk with nothing on it, that is to keep its snapshots. -/
def firstDryRun : Except Failure GenerateReport × Disk :=
  (generate { models := [] } { crud := { isDisabled := true } }
    { outputDir := "out", isDryRun := true, keepsSnapshots := true } :
      StateM Disk (Except Failure GenerateReport)).run (blank "home")

theorem isOk_firstDryRun : firstDryRun.1.isOk = true := by decide +kernel

theorem firstDryRun_isConfined :
    ∃ answer after, firstDryRun = (answer, after) ∧ answer.isOk = true ∧
      IsConfined { models := [] } { crud := { isDisabled := true } }
        { outputDir := "out", isDryRun := true, keepsSnapshots := true } (blank "home")
        after answer := by
  have ok := isOk_firstDryRun
  rcases run : firstDryRun with ⟨answer, after⟩
  rw [run] at ok
  refine ⟨answer, after, rfl, ok, ?_⟩
  rw [firstDryRun] at run
  exact dryRun_isConfined rfl run

/-- It makes the directory of the snapshots, and writes them. -/
theorem firstDryRun_writes :
    firstDryRun.1.isOk = true ∧ firstDryRun.2 ≠ blank "home" ∧
      (firstDryRun.2.read? "out/.pothos/debug/validate.json").isSome = true ∧
      (firstDryRun.2.read? "out/.pothos/debug/analyze.json").isSome = true := by
  have written : (firstDryRun.2.read? "out/.pothos/debug/validate.json").isSome = true := by
    decide +kernel
  refine ⟨isOk_firstDryRun, ?_, written, by decide +kernel⟩
  intro same
  rw [same] at written
  revert written
  decide +kernel

end GraphqlCrud.Command
