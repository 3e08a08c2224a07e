import GraphqlCrud.Output.Delivery
import GraphqlCrud.Proofs.Storage.Store
/-!
Deliveries to a disk. Every file is attempted once, and where no attempt fails all files are stored
in the end, as long as they have places of their own.
-/
namespace GraphqlCrud.Output

open Disk Storage

namespace Delivery

/-- Every attempt is counted once. -/
theorem total_eq (d : Delivery) : d.total = d.attempts.length := by
  obtain ⟨attempts⟩ := d
  simp only [total, written, unchanged, writtenPaths, unchangedPaths, failures]
  induction attempts with
  | nil => rfl
  | cons attempt rest ih =>
    obtain ⟨path, _ | _ | failure⟩ := attempt <;>
      simp only [List.filterMap_cons, List.length_cons] <;> omega

theorem isSuccess_of_hasFailures {d : Delivery} (h : d.hasFailures = false)
    {attempt : String × StoreOutcome} (member : attempt ∈ d.attempts) : attempt.2.IsSuccess := by
  intro failure failed
  have listed : (attempt.1, failure) ∈ d.failures := by
    rw [failures, List.mem_filterMap]
    exact ⟨attempt, member, by rw [← attempt.eta, failed]⟩
  rw [hasFailures, Bool.not_eq_false', List.isEmpty_iff] at h
  rw [h] at listed
  cases listed

theorem written_add_unchanged {d : Delivery} (h : d.hasFailures = false) :
    d.written + d.unchanged = d.attempts.length := by
  rw [hasFailures, Bool.not_eq_false', List.isEmpty_iff] at h
  rw [← total_eq, total, h]
  rfl

/-- The delivery of files that all are as they should be. -/
def ofUnchanged (files : List OutputFile) : Delivery :=
  { attempts := files.map fun f => (f.path, .unchanged) }

variable (files : List OutputFile)

@[simp] theorem written_ofUnchanged : (ofUnchanged files).written = 0 := by
  simp [ofUnchanged, written, writtenPaths, List.filterMap_map]

@[simp] theorem unchanged_ofUnchanged : (ofUnchanged files).unchanged = files.length := by
  simp [ofUnchanged, unchanged, unchangedPaths, List.filterMap_map]

@[simp] theorem hasFailures_ofUnchanged : (ofUnchanged files).hasFailures = false := by
  simp [ofUnchanged, hasFailures, failures, List.filterMap_map]

end Delivery

theorem inGroupOrder_perm (files : List OutputFile) : (inGroupOrder files).Perm files := by
  have groups : inGroupOrder files = files.filter (·.group == .model) ++
      (files.filter (·.group == .root) ++ files.filter (·.group == .inputs)) := by
    simp [inGroupOrder, FileGroup.all]
  rw [groups]
  induction files with
  | nil => exact .refl _
  | cons f rest ih =>
    have others := ih (by simp [inGroupOrder, FileGroup.all])
    cases group : f.group with
    | model => simpa [group] using others
    | root => simpa [group] using List.perm_middle.trans (others.cons f)
    | inputs =>
      rw [← List.append_assoc] at others
      simpa [group, List.append_assoc] using List.perm_middle.trans (others.cons f)

/-- The attempt to store a file below a directory. -/
def attempt (directory : String) (f : OutputFile) : StateM Disk (String × StoreOutcome) := do
  return (f.path, ← store (f.fullPath directory) f.content)

def attempts (directory : String) (files : List OutputFile) :
    StateM Disk (List (String × StoreOutcome)) := files.mapM (attempt directory)

theorem run_deliver (directory : String) (files : List OutputFile) (d : Disk) :
    (deliver directory files : StateM Disk Delivery).run d =
      (⟨((attempts directory files).run d).1⟩, ((attempts directory files).run d).2) := rfl

/-- Where a file stands below a directory. -/
def OutputFile.placeBelow (d : Disk) (directory : String) (f : OutputFile) : Place :=
  d.place (f.fullPath directory)

variable {d e : Disk} {directory : String} {files : List OutputFile}
  {made : List (String × StoreOutcome)}

theorem placeBelow_congr (same : e.workingDirectory = d.workingDirectory) (directory : String)
    (f : OutputFile) : f.placeBelow e directory = f.placeBelow d directory :=
  place_congr same _

theorem run_attempts_nil (directory : String) (d : Disk) :
    (attempts directory []).run d = ([], d) := by
  rw [attempts, List.mapM_nil]
  rfl

theorem run_attempts_cons {f : OutputFile} {outcome : StoreOutcome} {between : Disk}
    (first : (store (f.fullPath directory) f.content : StateM Disk StoreOutcome).run d =
      (outcome, between))
    (rest : (attempts directory files).run between = (made, e)) :
    (attempts directory (f :: files)).run d = ((f.path, outcome) :: made, e) := by
  have once : (attempt directory f).run d = ((f.path, outcome), between) := by
    rw [attempt, run_bind, first]
    rfl
  exact run_mapM_cons _ once rest

/-- Attempts make directories and write at the places of their files. If all succeed, all files are
stored in the end. -/
theorem attempts_spec (run : (attempts directory files).run d = (made, e))
    (distinct : (files.map (·.placeBelow d directory)).Nodup) :
    Grows (files.map (·.placeBelow d directory)) d e ∧ made.length = files.length ∧
      ((∀ attempt ∈ made, attempt.2.IsSuccess) →
        ∀ f ∈ files, e.IsStored (f.fullPath directory) f.content) := by
  induction files generalizing d made with
  | nil =>
    rw [run_attempts_nil] at run
    obtain ⟨rfl, rfl⟩ := Prod.mk.inj run
    exact ⟨.refl _ d, rfl, fun _ => nofun⟩
  | cons f rest ih =>
    rcases first : (store (f.fullPath directory) f.content : StateM Disk StoreOutcome).run d
      with ⟨outcome, between⟩
    rcases later : (attempts directory rest).run between with ⟨others, last⟩
    rw [run_attempts_cons first later] at run
    obtain ⟨rfl, rfl⟩ := Prod.mk.inj run
    obtain ⟨grows, stored⟩ := store_spec first
    obtain ⟨apart, distinct⟩ := List.nodup_cons.mp distinct
    have places : rest.map (·.placeBelow between directory) =
        rest.map (·.placeBelow d directory) :=
      List.map_congr_left fun g _ => placeBelow_congr grows.origin directory g
    obtain ⟨growsLater, length, storedLater⟩ := ih later (by rwa [places])
    rw [places] at growsLater
    refine ⟨grows.trans growsLater, congrArg (· + 1) length, fun success => ?_⟩
    obtain ⟨successFirst, successLater⟩ := List.forall_mem_cons.mp success
    refine List.forall_mem_cons.mpr ⟨?_, storedLater successLater⟩
    -- The file keeps its place to itself, so what is stored later leaves it stored.
    refine (stored successFirst).grows growsLater ?_
    rwa [place_congr grows.origin]

/-- Stored files are attempted again without any change. -/
theorem run_attempts_of_isStored
    (stored : ∀ f ∈ files, d.IsStored (f.fullPath directory) f.content) :
    (attempts directory files).run d = (files.map fun f => (f.path, .unchanged), d) := by
  induction files with
  | nil => exact run_attempts_nil directory d
  | cons f rest ih =>
    obtain ⟨first, later⟩ := List.forall_mem_cons.mp stored
    rw [run_attempts_cons (run_store_of_isStored first) (ih later), List.map_cons]

/-- A delivery grows the disk at the places of its files, and leaves them all stored if it has no
failures. -/
theorem deliver_spec {delivery : Delivery}
    (run : (deliver directory files : StateM Disk Delivery).run d = (delivery, e))
    (distinct : (files.map (·.placeBelow d directory)).Nodup) :
    Grows (files.map (·.placeBelow d directory)) d e ∧
      delivery.attempts.length = files.length ∧
      (delivery.hasFailures = false →
        ∀ f ∈ files, e.IsStored (f.fullPath directory) f.content) := by
  rcases made : (attempts directory files).run d with ⟨attempted, last⟩
  rw [run_deliver, made] at run
  obtain ⟨rfl, rfl⟩ := Prod.mk.inj run
  obtain ⟨grows, length, stored⟩ := attempts_spec made distinct
  exact ⟨grows, length, fun sound =>
    stored fun _ member => Delivery.isSuccess_of_hasFailures sound member⟩

theorem run_deliver_of_isStored
    (stored : ∀ f ∈ files, d.IsStored (f.fullPath directory) f.content) :
    (deliver directory files : StateM Disk Delivery).run d = (.ofUnchanged files, d) := by
  rw [run_deliver, run_attempts_of_isStored stored]
  rfl

end GraphqlCrud.Output
