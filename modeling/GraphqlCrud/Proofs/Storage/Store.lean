import GraphqlCrud.Proofs.Storage.Removal
/-!
Storing files on a disk. A stored file needs no work when it is stored again, and it stays stored
while files at other places are stored.
-/
namespace GraphqlCrud

/-- Nothing kept the file from being stored. -/
def StoreOutcome.IsSuccess (outcome : StoreOutcome) : Prop :=
  ∀ failure, outcome ≠ .failed failure

namespace Disk

/-- The file is there with its content, and so are the directories on the way to it. -/
structure IsStored (d : Disk) (path content : String) : Prop where
  housed : ∀ directory, Path.parent? path = some directory →
    d.makeDirectory directory = (true, d)
  held : d.read? path = some content

variable {d e : Disk} {path content : String} {targets : List Place}

theorem IsStored.grows (h : d.IsStored path content) (grows : Grows targets d e)
    (apart : d.place path ∉ targets) : e.IsStored path content :=
  ⟨fun directory parent => makeDirectory_again (h.housed directory parent) grows,
    grows.read? apart h.held⟩

end Disk

namespace Storage

open Disk

/-! Laws of requests one after another, stated for any requests so that none is carried out -/

section

variable {α β : Type} {d between e : Disk}

theorem run_bind (request : StateM Disk α) (next : α → StateM Disk β) (d : Disk) :
    (request >>= next).run d = (next (request.run d).1).run (request.run d).2 := rfl

theorem run_mapM_cons (request : α → StateM Disk β) {a : α} {l : List α} {b : β}
    {answers : List β} (first : (request a).run d = (b, between))
    (rest : (l.mapM request).run between = (answers, e)) :
    ((a :: l).mapM request).run d = (b :: answers, e) := by
  have step : ((a :: l).mapM request).run d =
      ((((request a).run d).1 :: ((l.mapM request).run ((request a).run d).2).1),
        ((l.mapM request).run ((request a).run d).2).2) := by
    rw [List.mapM_cons]
    rfl
  rw [step, first, rest]

end

variable {d e : Disk} {path content : String} {outcome : StoreOutcome}

theorem run_storeInPlace (path content : String) (d : Disk) :
    (storeInPlace path content : StateM Disk StoreOutcome).run d =
      if d.read? path = some content then (.unchanged, d)
      else
        match d.write path content with
        | (true, e) => (.written, e)
        | (false, e) => (.failed (.write path), e) := by
  change ((if d.read? path = some content then pure .unchanged
    else do
      if ← write path content then return .written
      else return .failed (.write path)) : StateM Disk StoreOutcome).run d = _
  split
  · rfl
  · change ((if (d.write path content).1 then pure .written
      else pure (.failed (.write path))) : StateM Disk StoreOutcome).run
        (d.write path content).2 = _
    rcases d.write path content with ⟨_ | _, e⟩ <;> rfl

theorem run_store (path content : String) (d : Disk) :
    (store path content : StateM Disk StoreOutcome).run d =
      match Path.parent? path with
      | none => (storeInPlace path content : StateM Disk StoreOutcome).run d
      | some directory =>
        match d.makeDirectory directory with
        | (true, e) => (storeInPlace path content : StateM Disk StoreOutcome).run e
        | (false, e) => (.failed (.create directory), e) := by
  rw [store]
  cases Path.parent? path with
  | none => rfl
  | some directory =>
    change ((if (d.makeDirectory directory).1 then storeInPlace path content
      else pure (.failed (.create directory))) : StateM Disk StoreOutcome).run
        (d.makeDirectory directory).2 = _
    dsimp only
    rcases d.makeDirectory directory with ⟨_ | _, e⟩ <;> rfl

theorem storeInPlace_spec
    (run : (storeInPlace path content : StateM Disk StoreOutcome).run d = (outcome, e)) :
    Grows [d.place path] d e ∧ (outcome.IsSuccess → e.read? path = some content) := by
  rw [run_storeInPlace] at run
  split at run
  · next held =>
    obtain ⟨-, rfl⟩ := Prod.mk.inj run
    exact ⟨.refl _ d, fun _ => held⟩
  · split at run
    · next written =>
      obtain ⟨-, rfl⟩ := Prod.mk.inj run
      exact ⟨grows_write written, fun _ => read?_of_write written⟩
    · next unwritten =>
      obtain ⟨rfl, rfl⟩ := Prod.mk.inj run
      exact ⟨grows_write unwritten, fun success => absurd rfl (success _)⟩

/-- Storing changes the file's own place and makes directories, and a success leaves the file
stored. -/
theorem store_spec (run : (store path content : StateM Disk StoreOutcome).run d = (outcome, e)) :
    Grows [d.place path] d e ∧ (outcome.IsSuccess → e.IsStored path content) := by
  rw [run_store] at run
  split at run
  · next top =>
    obtain ⟨grows, held⟩ := storeInPlace_spec run
    refine ⟨grows, fun success => ⟨fun directory parent => ?_, held success⟩⟩
    rw [top] at parent
    cases parent
  · next directory parent =>
    split at run
    · next housed made =>
      obtain ⟨grows, held⟩ := storeInPlace_spec run
      have first := grows_makeDirectory made
      rw [place_congr first.origin] at grows
      refine ⟨first.trans grows, fun success => ⟨fun other parent' => ?_, held success⟩⟩
      obtain rfl := Option.some.inj (parent.symm.trans parent')
      exact makeDirectory_again made grows
    · next unmade =>
      obtain ⟨rfl, rfl⟩ := Prod.mk.inj run
      exact ⟨(grows_makeDirectory unmade).mono (List.nil_subset _),
        fun success => absurd rfl (success _)⟩

/-- Storing a file once more changes nothing. -/
theorem run_store_of_isStored (h : d.IsStored path content) :
    (store path content : StateM Disk StoreOutcome).run d = (.unchanged, d) := by
  have held : (storeInPlace path content : StateM Disk StoreOutcome).run d = (.unchanged, d) := by
    rw [run_storeInPlace, if_pos h.held]
  rw [run_store]
  split
  · exact held
  · next directory parent =>
    rw [h.housed directory parent]
    exact held

end Storage
end GraphqlCrud
