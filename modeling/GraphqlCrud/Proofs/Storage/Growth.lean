import GraphqlCrud.Proofs.Storage.Places
/-!
What making directories and writing files does to a disk. Directories stay, and apart from the
places that are written nothing changes but that directories come to be where nothing was.
-/
namespace GraphqlCrud

namespace PlaceMap

variable {α : Type}

theorem put_nil (m : PlaceMap α) (value : α) : m.put value [] = m := by
  cases m <;> rfl

theorem put_eq_self {m : PlaceMap α} {place : Place} {value : α} (h : m.get? place = some value) :
    m.put value place = m := by
  induction m generalizing place with
  | empty => cases h
  | branch n here below beside ihBelow ihBeside =>
    cases place with
    | nil => rfl
    | cons name rest =>
      rw [get?] at h
      by_cases same : n = name
      · rw [if_pos same] at h
        rw [put, if_pos same]
        by_cases last : rest = []
        · rw [if_pos last] at h ⊢
          rw [h, last, put_nil]
        · rw [if_neg last] at h ⊢
          rw [ihBelow h]
      · rw [if_neg same] at h
        rw [put, if_neg same, ihBeside h]

end PlaceMap

namespace Disk

/-- A disk after directories have been made, and files written at the targets. -/
structure Grows (targets : List Place) (d e : Disk) : Prop where
  origin : e.workingDirectory = d.workingDirectory
  directory : ∀ p, d.node? p = some .directory → e.node? p = some .directory
  elsewhere : ∀ p ∉ targets,
    e.node? p = d.node? p ∨ d.node? p = none ∧ e.node? p = some .directory

variable {d e f : Disk} {targets others : List Place}

theorem Grows.refl (targets : List Place) (d : Disk) : Grows targets d d :=
  ⟨rfl, fun _ h => h, fun _ _ => .inl rfl⟩

theorem Grows.mono (h : Grows targets d e) (more : targets ⊆ others) : Grows others d e :=
  ⟨h.origin, h.directory, fun p hp => h.elsewhere p fun member => hp (more member)⟩

theorem Grows.trans (first : Grows targets d e) (second : Grows others e f) :
    Grows (targets ++ others) d f := by
  refine ⟨second.origin.trans first.origin, fun p h => second.directory p (first.directory p h), ?_⟩
  intro p hp
  rw [List.mem_append, not_or] at hp
  obtain ⟨apart, apart'⟩ := hp
  rcases first.elsewhere p apart with same | ⟨empty, made⟩
  · rcases second.elsewhere p apart' with same' | ⟨empty, made⟩
    · exact .inl (same'.trans same)
    · exact .inr ⟨same ▸ empty, made⟩
  · exact .inr ⟨empty, second.directory p made⟩

/-- A file that is no target is neither changed nor made. -/
theorem Grows.file_iff (h : Grows targets d e) {p : Place} (apart : p ∉ targets)
    (content : String) : e.node? p = some (.file content) ↔ d.node? p = some (.file content) := by
  rcases h.elsewhere p apart with same | ⟨empty, made⟩
  · rw [same]
  · simp [empty, made]

theorem ne_nil_of_node? {p : Place} (h : d.node? p ≠ some .directory) : p ≠ [] := by
  rintro rfl
  exact h (by simp [node?])

theorem grows_put {p : Place} (h : d.node? p ≠ some .directory) (node : Node) :
    Grows [p] d (d.put p node) := by
  refine ⟨rfl, ?_, ?_⟩
  · intro q hq
    have other : q ≠ p := by
      rintro rfl
      exact h hq
    rw [node?_put d node (ne_nil_of_node? h), if_neg other, hq]
  · intro q hq
    rw [node?_put d node (ne_nil_of_node? h), if_neg (by simpa using hq)]
    exact .inl rfl

theorem grows_put_directory {p : Place} (h : d.node? p = none) :
    Grows [] d (d.put p .directory) := by
  have free : d.node? p ≠ some .directory := by simp [h]
  have put := grows_put free .directory
  refine ⟨put.origin, put.directory, ?_⟩
  intro q _
  by_cases same : q = p
  · subst same
    exact .inr ⟨h, by rw [node?_put d _ (ne_nil_of_node? free), if_pos rfl]⟩
  · exact put.elsewhere q (by simpa using same)

/-! Following paths -/

theorem eq_walk_of_follow {here p : Place} {names : List String}
    (h : d.follow here names = .ok p) : p = here.walk names := by
  induction names generalizing here with
  | nil => exact (Except.ok.inj h).symm
  | cons name rest ih =>
    simp only [follow] at h
    split at h
    · split at h
      · cases h
      · exact ih h
    · cases h
    · cases h

theorem Grows.follow (grows : Grows targets d e) {here p : Place} {names : List String}
    (h : d.follow here names = .ok p) : e.follow here names = .ok p := by
  induction names generalizing here with
  | nil => exact h
  | cons name rest ih =>
    simp only [Disk.follow] at h
    split at h
    · next directory =>
      split at h
      · cases h
      · next short =>
        rw [Disk.follow, grows.directory here directory]
        simp only [short]
        exact ih h
    · cases h
    · cases h

/-- A path along which a file can be reached. -/
structure IsOpen (d : Disk) (path : String) : Prop where
  possible : isImpossible path = false
  ofFile : endsAtDirectory path = false
  followed : d.follow (d.origin path) (names path) = .ok (d.place path)

theorem Grows.isOpen (grows : Grows targets d e) {path : String} (h : d.IsOpen path) :
    e.IsOpen path := by
  refine ⟨h.possible, h.ofFile, ?_⟩
  rw [origin_congr grows.origin, place_congr grows.origin]
  exact grows.follow h.followed

/-- What a path leads to is what stands at its place. -/
structure LeadsTo (d : Disk) (path : String) (node : Node) : Prop where
  possible : isImpossible path = false
  followed : d.follow (d.origin path) (names path) = .ok (d.place path)
  found : d.node? (d.place path) = some node
  /-- A path that can only be that of a directory leads to no file. -/
  fits : node ≠ .directory → endsAtDirectory path = false

theorem leadsTo_of_find {path : String} {p : Place} {node : Node}
    (h : d.find path = .ok (p, node)) : p = d.place path ∧ d.LeadsTo path node := by
  rw [find] at h
  split at h
  · cases h
  split at h
  · cases h
  next possible =>
  rw [Bool.not_eq_true] at possible
  split at h
  · cases h
  next followed =>
  obtain rfl := eq_walk_of_follow followed
  split at h
  · cases h
  · next directory =>
    obtain ⟨rfl, rfl⟩ := Prod.mk.inj (Except.ok.inj h)
    exact ⟨rfl, possible, followed, directory, fun file => absurd rfl file⟩
  · next file =>
    split at h
    · cases h
    · next ofFile =>
      obtain ⟨rfl, rfl⟩ := Prod.mk.inj (Except.ok.inj h)
      exact ⟨rfl, possible, followed, file, fun _ => Bool.not_eq_true _ ▸ ofFile⟩

theorem endsAtDirectory_empty : endsAtDirectory "" = true := by decide

theorem read?_eq_some_iff {path content : String} :
    d.read? path = some content ↔
      d.IsOpen path ∧ d.node? (d.place path) = some (.file content) := by
  constructor
  · intro h
    rw [read?] at h
    split at h
    · next hfind =>
      obtain rfl := Option.some.inj h
      obtain ⟨-, leads⟩ := leadsTo_of_find hfind
      exact ⟨⟨leads.possible, leads.fits nofun, leads.followed⟩, leads.found⟩
    · cases h
  · rintro ⟨⟨possible, ofFile, followed⟩, node⟩
    have filled : path ≠ "" := by
      rintro rfl
      rw [endsAtDirectory_empty] at ofFile
      cases ofFile
    simp [read?, find, filled, possible, followed, node, ofFile]

/-! Making directories -/

theorem withDirectory?_eq_some {p : Place} (h : d.withDirectory? p = some e) :
    Grows [] d e ∧ e.node? p = some .directory := by
  rw [withDirectory?] at h
  split at h
  · next directory =>
    obtain rfl := Option.some.inj h
    exact ⟨.refl [] d, directory⟩
  · cases h
  · next empty =>
    obtain rfl := Option.some.inj h
    refine ⟨grows_put_directory empty, ?_⟩
    have free : d.node? p ≠ some .directory := by simp [empty]
    rw [node?_put d _ (ne_nil_of_node? free), if_pos rfl]

theorem withDirectory?_of_directory {p : Place} (h : d.node? p = some .directory) :
    d.withDirectory? p = some d := by rw [withDirectory?, h]

theorem grows_makeAlong {here : Place} {names : List String} {made : Bool}
    (h : d.makeAlong here names = (made, e)) : Grows [] d e := by
  induction names generalizing d here with
  | nil =>
    simp only [makeAlong] at h
    split at h
    · next found =>
      obtain ⟨-, rfl⟩ := Prod.mk.inj h
      exact (withDirectory?_eq_some found).1
    · obtain ⟨-, rfl⟩ := Prod.mk.inj h
      exact .refl [] d
  | cons name rest ih =>
    simp only [makeAlong] at h
    split at h
    · next found =>
      have first := (withDirectory?_eq_some found).1
      split at h
      · obtain ⟨-, rfl⟩ := Prod.mk.inj h
        exact first
      · exact first.trans (ih h)
    · obtain ⟨-, rfl⟩ := Prod.mk.inj h
      exact .refl [] d

/-- Directories that have been made need not be made again. -/
theorem makeAlong_again {here : Place} {names : List String}
    (h : d.makeAlong here names = (true, e)) (grows : Grows targets e f) :
    f.makeAlong here names = (true, f) := by
  induction names generalizing d here with
  | nil =>
    simp only [makeAlong] at h
    split at h
    · next found =>
      obtain ⟨-, rfl⟩ := Prod.mk.inj h
      have directory := grows.directory here (withDirectory?_eq_some found).2
      simp [makeAlong, withDirectory?_of_directory directory]
    · cases h
  | cons name rest ih =>
    simp only [makeAlong] at h
    split at h
    · next found =>
      split at h
      · cases h
      · next short =>
        -- What was made first stays while the rest is made.
        have later := (grows_makeAlong h).trans grows
        have directory := later.directory here (withDirectory?_eq_some found).2
        simp only [makeAlong, withDirectory?_of_directory directory, short]
        exact ih h
    · cases h

theorem grows_makeDirectory {path : String} {made : Bool}
    (h : d.makeDirectory path = (made, e)) : Grows [] d e := by
  rw [makeDirectory] at h
  split at h
  · obtain ⟨-, rfl⟩ := Prod.mk.inj h
    exact .refl [] d
  · exact grows_makeAlong h

theorem makeDirectory_again {path : String} (h : d.makeDirectory path = (true, e))
    (grows : Grows targets e f) : f.makeDirectory path = (true, f) := by
  have origin : f.origin path = d.origin path :=
    origin_congr (grows.origin.trans (grows_makeDirectory h).origin) path
  rw [makeDirectory] at h ⊢
  split at h
  · cases h
  · next possible =>
    rw [if_neg possible, origin]
    exact makeAlong_again h grows

/-! Writing files -/

/-- Writing succeeds along an open path that leads to no directory, and then changes one place. -/
theorem write_eq_true_iff {path content : String} :
    d.write path content = (true, e) ↔
      d.IsOpen path ∧ d.node? (d.place path) ≠ some .directory ∧
        e = d.put (d.place path) (.file content) := by
  rw [write]
  constructor
  · intro h
    split at h
    · cases h
    next possible =>
    split at h
    · cases h
    next p followed =>
    obtain rfl := eq_walk_of_follow followed
    rw [Bool.or_eq_true, not_or, Bool.not_eq_true, Bool.not_eq_true] at possible
    rw [withFile?] at h
    split at h
    · next found =>
      split at found
      · cases found
      · next free =>
        obtain rfl := Option.some.inj found
        obtain ⟨-, rfl⟩ := Prod.mk.inj h
        exact ⟨⟨possible.1, possible.2, followed⟩, free, rfl⟩
    · cases h
  · rintro ⟨⟨possible, ofFile, followed⟩, free, rfl⟩
    have put : d.withFile? (d.place path) content =
        some (d.put (d.place path) (.file content)) := by
      rw [withFile?]
      split
      · next directory => exact absurd directory free
      · rfl
    simp [possible, ofFile, followed, put]

theorem eq_of_write_eq_false {path content : String} (h : d.write path content = (false, e)) :
    e = d := by
  rw [write] at h
  split at h
  · exact (Prod.mk.inj h).2.symm
  split at h
  · exact (Prod.mk.inj h).2.symm
  split at h
  · cases h
  · exact (Prod.mk.inj h).2.symm

theorem grows_write {path content : String} {written : Bool}
    (h : d.write path content = (written, e)) : Grows [d.place path] d e := by
  cases written with
  | false =>
    obtain rfl := eq_of_write_eq_false h
    exact .refl _ e
  | true =>
    obtain ⟨-, free, rfl⟩ := write_eq_true_iff.mp h
    exact grows_put free _

theorem read?_of_write {path content : String} (h : d.write path content = (true, e)) :
    e.read? path = some content := by
  have grows := grows_write h
  obtain ⟨isOpen, free, rfl⟩ := write_eq_true_iff.mp h
  refine read?_eq_some_iff.mpr ⟨grows.isOpen isOpen, ?_⟩
  rw [place_congr grows.origin, node?_put d _ (ne_nil_of_node? free), if_pos rfl]

/-- A file can be read as before while other places are written. -/
theorem Grows.read? (grows : Grows targets d e) {path content : String}
    (apart : d.place path ∉ targets) (h : d.read? path = some content) :
    e.read? path = some content := by
  obtain ⟨isOpen, node⟩ := read?_eq_some_iff.mp h
  refine read?_eq_some_iff.mpr ⟨grows.isOpen isOpen, ?_⟩
  rw [place_congr grows.origin]
  exact (grows.file_iff apart content).mpr node

/-! Files that are there already -/

theorem put_eq_self {p : Place} {node : Node} (h : d.node? p = some node) : d.put p node = d := by
  have entries : d.entries.put node p = d.entries := by
    by_cases root : p = []
    · subst root
      exact PlaceMap.put_nil _ _
    · rw [node?, if_neg root] at h
      exact PlaceMap.put_eq_self h
  rw [put, entries]

theorem isImpossible_of_append {path rest : String} (h : isImpossible (path ++ rest) = false) :
    isImpossible path = false := by
  simp only [isImpossible, String.utf8ByteSize_append, String.toList_append, Bool.or_eq_false_iff,
    decide_eq_false_iff_not, List.contains_eq_mem, List.mem_append, not_or] at h ⊢
  exact ⟨by omega, h.2.1⟩

theorem isImpossible_of_join {directory path : String} (relative : Path.isAbsolute path = false)
    (h : isImpossible (Path.join directory path) = false) : isImpossible directory = false := by
  rw [Path.join, if_neg (by simp [relative])] at h
  split at h
  · exact isImpossible_of_append h
  · rw [String.append_assoc] at h
    exact isImpossible_of_append h

theorem makeAlong_of_follow {here p : Place} {front : List String} {last : String}
    (h : d.follow here (front ++ [last]) = .ok p) : d.makeAlong here front = (true, d) := by
  induction front generalizing here with
  | nil =>
    simp only [List.nil_append, follow] at h
    split at h
    · next directory => rw [makeAlong, withDirectory?_of_directory directory]
    · cases h
    · cases h
  | cons name rest ih =>
    simp only [List.cons_append, follow] at h
    split at h
    · next directory =>
      split at h
      · cases h
      · next short =>
        simp only [makeAlong, withDirectory?_of_directory directory, short]
        exact ih h
    · cases h
    · cases h

/-- The directory of a file that can be read need not be made. -/
theorem makeDirectory_of_read? {directory name content : String} (part : Path.IsPart name)
    (h : d.read? (Path.join directory name) = some content) :
    d.makeDirectory directory = (true, d) := by
  obtain ⟨isOpen, -⟩ := read?_eq_some_iff.mp h
  have single : Path.ofParts [name] = name := String.intercalate_singleton
  have relative : Path.isAbsolute name = false := by
    rw [← single]
    exact Path.isAbsolute_ofParts (by simpa using part)
  have last : names name = [name] := by
    rw [← single]
    exact names_ofParts (by simpa using part)
  have followed := isOpen.followed
  rw [origin, Path.isAbsolute_join directory relative, names_join directory relative, last] at followed
  rw [makeDirectory, if_neg (by simp [isImpossible_of_join relative isOpen.possible])]
  exact makeAlong_of_follow followed

/-- Writing what is there already changes nothing. -/
theorem write_of_read? {path content : String} (h : d.read? path = some content) :
    d.write path content = (true, d) := by
  obtain ⟨isOpen, node⟩ := read?_eq_some_iff.mp h
  exact write_eq_true_iff.mpr ⟨isOpen, by simp [node], (put_eq_self node).symm⟩

end Disk
end GraphqlCrud
