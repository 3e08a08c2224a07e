import GraphqlCrud.Proofs.Output.Delivery
import GraphqlCrud.Proofs.Output.Placement
/-!
What a generation leaves on a disk. Where nothing fails the disk holds the files of the run, and
generating them once more changes nothing. An output directory that is to be deleted first is empty
but for these files if it was found; and a directory that is not found before the run, because its
path goes up again after a name that nothing has, may be found with other files in it after the run.
-/
namespace GraphqlCrud

/-- The same options without the deletion of earlier output. -/
def Config.keepingOutput (config : Config) : Config :=
  { config with global := { config.global with deleteOutputFirst := false } }

namespace Output

open Schema Disk Storage GraphqlCrud.Path

variable {document : Document} {config : Config} {d before after : Disk} {directory : String}

theorem paths_preview_nodup (h : document.IsNamed) :
    ((preview document config).map (·.path)).Nodup :=
  ((inGroupOrder_perm _).map _).nodup_iff.mpr (made_isLaidOut h).distinct

theorem placeBelow_preview (h : document.IsNamed) {f : OutputFile}
    (hf : f ∈ preview document config) (d : Disk) (directory : String) :
    f.placeBelow d directory = d.place directory ++ Text.parts '/' f.path := by
  obtain ⟨a, made, rfl⟩ := (mem_preview_iff h).mp hf
  have parts := Artifact.isPart_parts h made.member
  have whole : Text.parts '/' (a.file document config).path = a.parts :=
    parts_ofParts parts a.parts_ne_nil
  rw [whole]
  exact place_join d directory parts fun up => Artifact.parts_ne_up h made.member _ up rfl

theorem ofParts_parts_path (h : document.IsNamed) {f : OutputFile}
    (hf : f ∈ preview document config) : ofParts (Text.parts '/' f.path) = f.path := by
  obtain ⟨a, made, rfl⟩ := (mem_preview_iff h).mp hf
  exact congrArg ofParts (parts_ofParts (Artifact.isPart_parts h made.member) a.parts_ne_nil)

/-- The files of a run have places of their own below any directory of any disk. -/
theorem places_preview_nodup (h : document.IsNamed) (d : Disk) (directory : String) :
    ((preview document config).map (·.placeBelow d directory)).Nodup := by
  refine List.Nodup.map_on ?_ (List.Nodup.of_map _ (paths_preview_nodup h))
  intro f hf g hg same
  rw [placeBelow_preview h hf, placeBelow_preview h hg] at same
  refine List.inj_on_of_nodup_map (paths_preview_nodup h) hf hg ?_
  rw [← ofParts_parts_path h hf, List.append_cancel_left same, ofParts_parts_path h hg]

/-! One generation -/

theorem deleteFirst_spec {deleted : Bool} {cleared : Disk}
    (run : (deleteFirst config.global directory :
      StateM Disk (Except StorageFailure Bool)).run before = (.ok deleted, cleared)) :
    (deleted = true ∧ config.global.deleteOutputFirst = true ∧
        Clears (before.place directory) before cleared) ∨
      (deleted = false ∧ cleared = before ∧
        (config.global.deleteOutputFirst = true → before.find directory = .error .missing)) := by
  rw [deleteFirst] at run
  split at run
  · next deletes =>
    rw [removeIfPresent, run_bind] at run
    rcases removal : (remove directory : StateM Disk Removal).run before with ⟨answer, left⟩
    rw [removal] at run
    have removed : before.remove directory = (answer, left) := removal
    cases answer with
    | removed =>
      obtain ⟨same, rfl⟩ := Prod.mk.inj run
      obtain rfl := Except.ok.inj same
      exact .inl ⟨rfl, deletes, (remove_eq_removed removed).2⟩
    | absent =>
      obtain ⟨same, rfl⟩ := Prod.mk.inj run
      obtain rfl := Except.ok.inj same
      obtain ⟨rfl, missing⟩ := remove_eq_absent removed
      exact .inr ⟨rfl, rfl, fun _ => missing⟩
    | failed => cases (Prod.mk.inj run).1
  · next keeps =>
    obtain ⟨same, rfl⟩ := Prod.mk.inj run
    obtain rfl := Except.ok.inj same
    exact .inr ⟨rfl, rfl, fun deletes => absurd deletes keeps⟩

theorem generate_spec {plan : Plan} {g : Generation}
    (run : (generate document plan config directory :
      StateM Disk (Except StorageFailure Generation)).run before = (.ok g, after)) :
    ∃ cleared,
      (deleteFirst config.global directory :
        StateM Disk (Except StorageFailure Bool)).run before = (.ok g.deletedFirst, cleared) ∧
      (deliver directory (files document plan config) : StateM Disk Delivery).run cleared =
        (g.delivery, after) := by
  rw [generate, run_bind] at run
  rcases first : (deleteFirst config.global directory :
      StateM Disk (Except StorageFailure Bool)).run before with ⟨answer, cleared⟩
  rw [first] at run
  cases answer with
  | error failure => cases (Prod.mk.inj run).1
  | ok deleted =>
    dsimp only at run
    rw [run_bind] at run
    rcases delivered : (deliver directory (files document plan config) :
      StateM Disk Delivery).run cleared with ⟨delivery, last⟩
    rw [delivered] at run
    obtain ⟨same, rfl⟩ := Prod.mk.inj run
    obtain rfl := Except.ok.inj same
    exact ⟨cleared, rfl, delivered⟩

theorem run_generate {plan : Plan} {deleted : Bool} {cleared : Disk} {delivery : Delivery}
    (first : (deleteFirst config.global directory :
      StateM Disk (Except StorageFailure Bool)).run before = (.ok deleted, cleared))
    (delivered : (deliver directory (files document plan config) :
      StateM Disk Delivery).run cleared = (delivery, after)) :
    (generate document plan config directory :
      StateM Disk (Except StorageFailure Generation)).run before =
        (.ok { deletedFirst := deleted, delivery }, after) := by
  rw [generate, run_bind, first]
  dsimp only
  rw [run_bind, delivered]
  rfl

/-! What is left on the disk -/

/-- All files below the directory are files of the run. -/
def HoldsOnly (document : Document) (config : Config) (directory : String) (d : Disk) : Prop :=
  ∀ p content, isWithin (d.place directory) p = true → d.node? p = some (.file content) →
    ∃ f ∈ preview document config, f.placeBelow d directory = p

/-- A generation brings exactly its files to the disk, and has nothing to do when it is repeated
without the deletion. -/
structure IsFaithful (document : Document) (config : Config) (directory : String)
    (before after : Disk) (g : Generation) : Prop where
  held : ∀ f ∈ preview document config,
    after.read? (f.fullPath directory) = some f.content
  alone : config.global.deleteOutputFirst = true → HoldsOnly document config directory after
  elsewhere : config.global.deleteOutputFirst = false →
    ∀ p, (∀ f ∈ preview document config, f.placeBelow after directory ≠ p) → ∀ content,
      after.node? p = some (.file content) ↔ before.node? p = some (.file content)
  counted : g.delivery.written + g.delivery.unchanged = (preview document config).length
  settled : ∃ again,
    (generate document (Plan.build document config.crud) config.keepingOutput directory :
      StateM Disk (Except StorageFailure Generation)).run after = (.ok again, after) ∧
    again.delivery.hasFailures = false ∧ again.delivery.written = 0 ∧
    again.delivery.unchanged = (preview document config).length

variable {cleared : Disk}

/-- A delivery neither brings files besides its own below the directory nor takes any away. -/
theorem holdsOnly_iff
    (grows : Grows ((preview document config).map (·.placeBelow cleared directory)) cleared after) :
    HoldsOnly document config directory after ↔ HoldsOnly document config directory cleared := by
  have places : ∀ f : OutputFile, f.placeBelow after directory = f.placeBelow cleared directory :=
    placeBelow_congr grows.origin directory
  simp only [HoldsOnly, place_congr grows.origin, places]
  refine forall_congr' fun p => forall_congr' fun content => forall_congr' fun _ => ?_
  by_cases own : ∃ f ∈ preview document config, f.placeBelow cleared directory = p
  · simp [own]
  · rw [grows.file_iff (by simpa using own)]

theorem holdsOnly_of_clears (clears : Clears (before.place directory) before cleared) :
    HoldsOnly document config directory cleared := by
  intro p content within file
  rw [place_congr clears.origin] at within
  exact absurd file (clears.not_file within content)

theorem holdsOnly_of_missing (tree : before.IsTree) (filled : directory ≠ "")
    (down : ".." ∉ names directory) (missing : before.find directory = .error .missing) :
    HoldsOnly document config directory before := by
  intro p content within file
  obtain ⟨rest, rfl⟩ := isWithin_iff.mp within
  rw [tree.below_missing filled down missing] at file
  cases file

theorem run_generate_of_isStored
    (stored : ∀ f ∈ preview document config, after.IsStored (f.fullPath directory) f.content) :
    (generate document (Plan.build document config.crud) config.keepingOutput directory :
      StateM Disk (Except StorageFailure Generation)).run after =
        (.ok { deletedFirst := false, delivery := .ofUnchanged (preview document config) },
          after) :=
  run_generate rfl (run_deliver_of_isStored stored)

/-- Once the deletion is over, a directory holds other files than those of the run only if it was not
deleted and held them before. -/
theorem holdsOnly_deleteFirst_iff {deleted : Bool}
    (first : (deleteFirst config.global directory :
      StateM Disk (Except StorageFailure Bool)).run before = (.ok deleted, cleared)) :
    HoldsOnly document config directory cleared ↔
      deleted = true ∨ HoldsOnly document config directory before := by
  rcases deleteFirst_spec first with ⟨rfl, -, clears⟩ | ⟨rfl, rfl, -⟩
  · simp [holdsOnly_of_clears clears]
  · simp

/-- A delivery without failures makes the generation faithful, if the directory held nothing else by
then that should have been deleted. -/
theorem isFaithful_iff_holdsOnly {g : Generation} (h : document.IsNamed)
    (first : (deleteFirst config.global directory :
      StateM Disk (Except StorageFailure Bool)).run before = (.ok g.deletedFirst, cleared))
    (delivered : (deliver directory (preview document config) : StateM Disk Delivery).run cleared =
      (g.delivery, after))
    (sound : g.delivery.hasFailures = false) :
    IsFaithful document config directory before after g ↔
      (config.global.deleteOutputFirst = true → HoldsOnly document config directory cleared) := by
  obtain ⟨grows, length, stored⟩ := deliver_spec delivered (places_preview_nodup h cleared directory)
  constructor
  · intro faithful deletes
    exact (holdsOnly_iff grows).mp (faithful.alone deletes)
  · intro condition
    refine { held := fun f hf => (stored sound f hf).held,
             alone := fun deletes => (holdsOnly_iff grows).mpr (condition deletes),
             elsewhere := ?_,
             counted := (Delivery.written_add_unchanged sound).trans length,
             settled := ⟨_, run_generate_of_isStored (stored sound), by simp⟩ }
    intro keeps p apart content
    rcases deleteFirst_spec first with ⟨-, deletes, -⟩ | ⟨-, rfl, -⟩
    · rw [keeps] at deletes
      cases deletes
    · simp only [placeBelow_congr grows.origin] at apart
      refine grows.file_iff (fun target => ?_) content
      obtain ⟨f, hf, rfl⟩ := List.mem_map.mp target
      exact apart f hf rfl

/-- A generation without failures is faithful, except that files which were below the output
directory stay there when the directory was to be deleted and was not found. -/
theorem generate_isFaithful_iff {g : Generation} (h : document.IsNamed)
    (run : (generate document (Plan.build document config.crud) config directory :
      StateM Disk (Except StorageFailure Generation)).run before = (.ok g, after))
    (sound : g.delivery.hasFailures = false) :
    (IsFaithful document config directory before after g ↔
      (config.global.deleteOutputFirst = true →
        g.deletedFirst = true ∨ HoldsOnly document config directory before)) ∧
    (before.IsTree → directory ≠ "" → ".." ∉ names directory →
      IsFaithful document config directory before after g) := by
  obtain ⟨cleared, first, delivered⟩ := generate_spec run
  have faithful_iff := isFaithful_iff_holdsOnly h first delivered sound
  rw [holdsOnly_deleteFirst_iff first] at faithful_iff
  refine ⟨faithful_iff, fun tree filled down => faithful_iff.mpr fun deletes => ?_⟩
  rcases deleteFirst_spec first with ⟨deleted, -⟩ | ⟨-, -, missing⟩
  · exact .inl deleted
  · exact .inr (holdsOnly_of_missing tree filled down (missing deletes))

/-! A file that no run makes, in a directory that is found by one path and not by another -/

def oneModel : Document := { models := [{ name := "User", fields := [] }] }

theorem isNamed_oneModel : oneModel.IsNamed := by
  refine ⟨?_, by decide⟩
  intro m hm
  obtain rfl := List.mem_singleton.mp hm
  exact Text.IsWord.of_isIdentifier (by decide)

/-- Only the input types are made, and what was there is to be deleted. -/
def deletingFirst : Config :=
  { global := { deleteOutputFirst := true }, crud := { isDisabled := true } }

/-- A disk with an old file below the working directory. -/
def withOldFile : Disk :=
  ((blank "home").put ["home", "kept"] .directory).put ["home", "kept", "old.ts"] (.file "old")

theorem isTree_withOldFile : withOldFile.IsTree :=
  ((isTree_blank "home").put (by decide) (by decide) .directory).put (by decide) (by decide) _

def regenerate (directory : String) : Except StorageFailure Generation × Disk :=
  (generate oneModel (Plan.build oneModel deletingFirst.crud) deletingFirst directory :
    StateM Disk (Except StorageFailure Generation)).run withOldFile

def hasSucceeded : Except StorageFailure Generation × Disk → Bool
  | (.ok g, _) => !g.delivery.hasFailures
  | (.error _, _) => false

theorem exists_of_hasSucceeded {answer : Except StorageFailure Generation × Disk}
    (h : hasSucceeded answer = true) :
    ∃ g after, answer = (.ok g, after) ∧ g.delivery.hasFailures = false := by
  obtain ⟨failure | g, after⟩ := answer
  · cases h
  · exact ⟨g, after, rfl, by simpa [hasSucceeded] using h⟩

/-- The old file is deleted together with its directory. -/
theorem regenerate_isFaithful :
    ∃ g after, regenerate "kept" = (.ok g, after) ∧
      IsFaithful oneModel deletingFirst "kept" withOldFile after g := by
  have succeeded : hasSucceeded (regenerate "kept") = true := by decide +kernel
  obtain ⟨g, after, run, sound⟩ := exists_of_hasSucceeded succeeded
  refine ⟨g, after, run, ?_⟩
  rw [regenerate] at run
  exact (generate_isFaithful_iff isNamed_oneModel run sound).2 isTree_withOldFile (by decide) (by decide)

/-- On the way to its directory the path goes through a missing one. So the old file is not deleted;
but the missing directory is made, and then the new files are beside the old one. -/
theorem regenerate_beside_oldFile :
    withOldFile.IsTree ∧
      ∃ g after, regenerate "gone/../kept" = (.ok g, after) ∧ g.delivery.hasFailures = false ∧
        (after.read? "kept/inputs.ts").isSome = true ∧
        after.read? "kept/old.ts" = some "old" ∧
        ¬ IsFaithful oneModel deletingFirst "gone/../kept" withOldFile after g := by
  have succeeded : hasSucceeded (regenerate "gone/../kept") = true := by decide +kernel
  obtain ⟨g, after, run, sound⟩ := exists_of_hasSucceeded succeeded
  have new : ((regenerate "gone/../kept").2.read? "kept/inputs.ts").isSome = true := by
    decide +kernel
  have old : (regenerate "gone/../kept").2.read? "kept/old.ts" = some "old" := by decide +kernel
  have place : (regenerate "gone/../kept").2.place "gone/../kept" = ["home", "kept"] := by
    decide +kernel
  have node : (regenerate "gone/../kept").2.node? ["home", "kept", "old.ts"] =
      some (.file "old") := by decide +kernel
  have others : ∀ f ∈ preview oneModel deletingFirst, Text.parts '/' f.path ≠ ["old.ts"] := by
    decide +kernel
  rw [run] at new old place node
  refine ⟨isTree_withOldFile, g, after, run, sound, new, old, ?_⟩
  intro faithful
  obtain ⟨f, hf, same⟩ := faithful.alone rfl _ _ (by rw [place]; decide) node
  rw [placeBelow_preview isNamed_oneModel hf, place] at same
  exact others f hf ((List.append_right_inj ["home", "kept"]).mp same)

end Output
end GraphqlCrud
