import GraphqlCrud.Proofs.Storage.Growth
/-!
What removing a directory does to a disk, and what it means that a directory is missing. On a disk
that is a tree nothing is below a missing directory; but a path that goes up again after a missing
directory is missing as well, whatever there is at its place.
-/
namespace GraphqlCrud.Disk

variable {d e : Disk} {path : String} {answer : Removal}

/-- Everything that is there is in a directory. -/
def IsTree (d : Disk) : Prop :=
  ∀ p, p ≠ [] → d.node? p ≠ none → d.node? p.dropLast = some .directory

theorem IsTree.append_eq_none (h : d.IsTree) {p : Place} (empty : d.node? p = none)
    (names : List String) : d.node? (p ++ names) = none := by
  induction names generalizing p with
  | nil => simpa using empty
  | cons name rest ih =>
    have next : d.node? (p ++ [name]) = none := by
      refine Decidable.byContradiction fun found => ?_
      have parent := h (p ++ [name]) (by simp) found
      rw [List.dropLast_concat, empty] at parent
      cases parent
    simpa using ih next

theorem IsTree.append_eq_none_of_follow (h : d.IsTree) {here : Place} {names : List String}
    (down : ".." ∉ names) (missing : d.follow here names = .error .missing) :
    d.node? (here ++ names) = none := by
  induction names generalizing here with
  | nil => cases missing
  | cons name rest ih =>
    obtain ⟨first, later⟩ := List.ne_and_not_mem_of_not_mem_cons down
    simp only [follow] at missing
    split at missing
    · split at missing
      · cases missing
      · rw [Place.enter, if_neg (Ne.symm first)] at missing
        simpa using ih later missing
    · cases missing
    · next empty => exact h.append_eq_none empty _

/-- Below a directory that is not found there is nothing, if its path only leads down. -/
theorem IsTree.below_missing (h : d.IsTree) {path : String} (filled : path ≠ "")
    (down : ".." ∉ names path) (missing : d.find path = .error .missing) (rest : List String) :
    d.node? (d.place path ++ rest) = none := by
  have place : d.place path = d.origin path ++ names path := Place.walk_eq_append _ down
  refine h.append_eq_none ?_ rest
  rw [find, if_neg filled] at missing
  split at missing
  · cases missing
  split at missing
  · next obstacle followed =>
    obtain rfl := Except.error.inj missing
    rw [place]
    exact h.append_eq_none_of_follow down followed
  · next followed =>
    obtain rfl := eq_walk_of_follow followed
    split at missing
    · next empty => exact empty
    · cases missing
    · split at missing <;> cases missing

theorem isTree_blank (name : String) : (blank name).IsTree := by
  intro p hp found
  have below : p = [name] := by
    refine Decidable.byContradiction fun other => found ?_
    rw [node?, if_neg hp, blank, PlaceMap.get?_single _ (List.cons_ne_nil _ _), if_neg other]
  subst below
  rfl

/-- Something new in a directory leaves a tree. -/
theorem IsTree.put (h : d.IsTree) {p : Place} (parent : d.node? p.dropLast = some .directory)
    (free : d.node? p ≠ some .directory) (node : Node) : (d.put p node).IsTree := by
  have grows := grows_put free node
  intro q hq found
  by_cases same : q = p
  · subst same
    exact grows.directory _ parent
  · rw [node?_put d node (ne_nil_of_node? free), if_neg same] at found
    exact grows.directory _ (h q hq found)

/-! Removing -/

/-- A disk after all that is within a place has been removed, perhaps but for the directory at the
place. -/
structure Clears (place : Place) (d e : Disk) : Prop where
  origin : e.workingDirectory = d.workingDirectory
  outside : ∀ p, isWithin place p = false → e.node? p = d.node? p
  inside : ∀ p, isWithin place p = true →
    e.node? p = none ∨ p = place ∧ e.node? p = some .directory

theorem isWithin_iff {place other : Place} :
    isWithin place other = true ↔ ∃ rest, other = place ++ rest := by
  rw [isWithin, List.isPrefixOf_iff_prefix]
  exact ⟨fun ⟨rest, h⟩ => ⟨rest, h.symm⟩, fun ⟨rest, h⟩ => ⟨rest, h.symm⟩⟩

theorem isWithin_self (place : Place) : isWithin place place = true :=
  isWithin_iff.mpr ⟨[], (List.append_nil place).symm⟩

theorem Clears.not_file {place : Place} (h : Clears place d e) {p : Place}
    (within : isWithin place p = true) (content : String) :
    e.node? p ≠ some (.file content) := by
  rcases h.inside p within with empty | ⟨-, directory⟩
  · simp [empty]
  · simp [directory]

theorem clears_keep {place : Place} (directory : d.node? place = some .directory)
    {test : Place → Bool} (outside : ∀ p, isWithin place p = false → test p = true)
    (inside : ∀ p, isWithin place p = true → p ≠ place → test p = false) :
    Clears place d (d.keep test) := by
  refine ⟨rfl, ?_, ?_⟩
  · intro p hp
    by_cases root : p = []
    · subst root
      simp [node?]
    · rw [node?_keep d test root, outside p hp, if_pos rfl]
  · intro p hp
    by_cases root : p = []
    · subst root
      have top : place = [] := by simpa using isWithin_iff.mp hp
      exact .inr ⟨top.symm, by simp [node?]⟩
    · rw [node?_keep d test root]
      by_cases same : p = place
      · subst same
        rw [directory]
        split
        · exact .inr ⟨rfl, rfl⟩
        · exact .inl rfl
      · rw [inside p hp same]
        exact .inl rfl

/-- Removing a directory, from the disk before it to the answer and the disk after it. -/
inductive Removes (d : Disk) (path : String) : Removal → Disk → Prop where
  | absent (missing : d.find path = .error .missing) : Removes d path .absent d
  | refused (present : d.find path ≠ .error .missing) (other : d.isDirectory path = false) :
    Removes d path .failed d
  | whole (found : d.find path = .ok (d.place path, .directory))
    (named : endsWithName path = true) : Removes d path .removed (d.without (d.place path))
  /-- The directory is empty now, but there is no name to remove it by. -/
  | kept (found : d.find path = .ok (d.place path, .directory))
    (nameless : endsWithName path = false) : Removes d path .failed (d.emptiedAt (d.place path))
  /-- The directory is empty now, and its path went through what was in it. -/
  | lost (found : d.find path = .ok (d.place path, .directory))
    (nameless : endsWithName path = false)
    (unreached : (d.emptiedAt (d.place path)).reaches (d.origin path) (names path) = false) :
    Removes d path .removed (d.emptiedAt (d.place path))

theorem removes_of_remove (h : d.remove path = (answer, e)) : Removes d path answer e := by
  rw [remove] at h
  split at h
  · next missing =>
    obtain ⟨rfl, rfl⟩ := Prod.mk.inj h
    exact .absent missing
  · next blocked =>
    obtain ⟨rfl, rfl⟩ := Prod.mk.inj h
    exact .refused (by simp [blocked]) (by rw [isDirectory, blocked])
  · next file =>
    obtain ⟨rfl, rfl⟩ := Prod.mk.inj h
    exact .refused (by simp [file]) (by rw [isDirectory, file])
  · next place found =>
    obtain ⟨rfl, -⟩ := leadsTo_of_find found
    split at h
    · next named =>
      obtain ⟨rfl, rfl⟩ := Prod.mk.inj h
      exact .whole found named
    · next nameless =>
      rw [Bool.not_eq_true] at nameless
      dsimp only at h
      split at h
      · obtain ⟨rfl, rfl⟩ := Prod.mk.inj h
        exact .kept found nameless
      · next unreached =>
        obtain ⟨rfl, rfl⟩ := Prod.mk.inj h
        exact .lost found nameless (by simpa using unreached)

theorem clears_without {place : Place} (directory : d.node? place = some .directory) :
    Clears place d (d.without place) := by
  refine clears_keep directory ?_ ?_
  · intro p outside
    simp [outside]
  · intro p inside _
    simp [inside]

theorem clears_emptiedAt {place : Place} (directory : d.node? place = some .directory) :
    Clears place d (d.emptiedAt place) := by
  refine clears_keep directory ?_ ?_
  · intro p outside
    simp [outside]
  · intro p inside other
    simp [inside, other]

/-- A removal that changes anything clears the place of a directory. -/
theorem Removes.eq_or_clears (h : Removes d path answer e) :
    e = d ∨ Clears (d.place path) d e := by
  cases h with
  | absent | refused => exact .inl rfl
  | whole found => exact .inr (clears_without (leadsTo_of_find found).2.found)
  | kept found => exact .inr (clears_emptiedAt (leadsTo_of_find found).2.found)
  | lost found => exact .inr (clears_emptiedAt (leadsTo_of_find found).2.found)

theorem Removes.outside (h : Removes d path answer e) {p : Place}
    (apart : isWithin (d.place path) p = false) : e.node? p = d.node? p := by
  rcases h.eq_or_clears with rfl | clears
  · rfl
  · exact clears.outside p apart

theorem Removes.origin (h : Removes d path answer e) :
    e.workingDirectory = d.workingDirectory := by
  rcases h.eq_or_clears with rfl | clears
  · rfl
  · exact clears.origin

/-- A directory is told of before its removal exactly as after it. -/
theorem Removes.isDirectory_eq (h : Removes d path answer e) (done : answer ≠ .failed) :
    d.isDirectory path = (answer == .removed) := by
  cases h with
  | absent missing => rw [isDirectory, missing]; rfl
  | refused | kept => contradiction
  | whole found => rw [isDirectory, found]; rfl
  | lost found => rw [isDirectory, found]; rfl

theorem Removes.clears (h : Removes d path .removed e) :
    d.LeadsTo path .directory ∧ Clears (d.place path) d e := by
  cases h with
  | whole found =>
    obtain ⟨-, leads⟩ := leadsTo_of_find found
    exact ⟨leads, clears_without leads.found⟩
  | lost found =>
    obtain ⟨-, leads⟩ := leadsTo_of_find found
    exact ⟨leads, clears_emptiedAt leads.found⟩

/-- Removing a directory finds it first, and then clears its place. -/
theorem remove_eq_removed {path : String} (h : d.remove path = (.removed, e)) :
    d.LeadsTo path .directory ∧ Clears (d.place path) d e := (removes_of_remove h).clears

theorem remove_eq_absent {path : String} (h : d.remove path = (.absent, e)) :
    e = d ∧ d.find path = .error .missing := by
  cases removes_of_remove h with
  | absent missing => exact ⟨rfl, missing⟩

end GraphqlCrud.Disk
