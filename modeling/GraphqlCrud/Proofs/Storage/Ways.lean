import GraphqlCrud.Proofs.Path.Parents
import GraphqlCrud.Proofs.Storage.Store
/-!
The way to a file. To store a file, directories are made of the places on its way, up to the first
that cannot be one. What comes of it depends on where files are on the way, and on what is at the
place of the file itself unless that place is on the way, too.
-/
namespace GraphqlCrud.Disk

/-- The places that names lead through, the first and the last included. -/
def stations (here : Place) : List String → List Place
  | [] => [here]
  | name :: rest => here :: stations (here.enter name) rest

theorem mem_stations_append {here s : Place} {front rest : List String} :
    s ∈ stations here (front ++ rest) ↔
      s ∈ stations here front ∨ s ∈ stations (here.walk front) rest := by
  induction front generalizing here with
  | nil =>
    cases rest with
    | nil => simp [stations, Place.walk]
    | cons name rest => simp [stations, Place.walk]
  | cons name front ih => rw [List.cons_append, stations, stations, List.mem_cons, List.mem_cons, ih,
      Place.walk_cons, or_assoc]

/-- Names that do not lead up lead through places below the first. -/
theorem exists_prefix_of_mem_stations {here s : Place} {names : List String} (down : ".." ∉ names)
    (h : s ∈ stations here names) : ∃ front, front <+: names ∧ s = here ++ front := by
  induction names generalizing here with
  | nil => exact ⟨[], List.nil_prefix, by simpa [stations] using h⟩
  | cons name rest ih =>
    obtain ⟨first, later⟩ := List.ne_and_not_mem_of_not_mem_cons down
    rcases List.mem_cons.mp h with rfl | h
    · exact ⟨[], List.nil_prefix, (List.append_nil s).symm⟩
    · obtain ⟨front, begins, rfl⟩ := ih later h
      refine ⟨name :: front, List.cons_prefix_cons.mpr ⟨rfl, begins⟩, ?_⟩
      rw [Place.enter, if_neg (Ne.symm first), List.append_assoc, List.singleton_append]

def holdsFile (d : Disk) (p : Place) : Bool :=
  match d.node? p with
  | some (.file _) => true
  | _ => false

/-- The places along the names of which directories are made. -/
def reached (d : Disk) (here : Place) : List String → List Place
  | [] => if d.holdsFile here then [] else [here]
  | name :: rest =>
    if d.holdsFile here then []
    else if isTooLong name then [here]
    else here :: d.reached (here.enter name) rest

/-- Whether directories can be made all along the names. -/
def passes (d : Disk) (here : Place) (names : List String) : Bool :=
  (stations here names).all (!d.holdsFile ·) && names.all (!isTooLong ·)

variable {d e : Disk} {here p : Place}

section

variable {names : List String}

theorem holdsFile_congr (same : e.node? p = d.node? p) : e.holdsFile p = d.holdsFile p := by
  rw [holdsFile, holdsFile, same]

theorem holdsFile_of_directory (h : d.node? p = some .directory) : d.holdsFile p = false := by
  rw [holdsFile, h]

theorem reached_subset : d.reached here names ⊆ stations here names := by
  induction names generalizing here with
  | nil =>
    rw [reached, stations]
    split
    · exact List.nil_subset _
    · exact List.Subset.refl _
  | cons name rest ih =>
    rw [reached, stations]
    split
    · exact List.nil_subset _
    split
    · exact List.cons_subset_cons here (List.nil_subset _)
    · exact List.cons_subset_cons here ih

theorem holdsFile_of_mem_reached (h : p ∈ d.reached here names) : d.holdsFile p = false := by
  induction names generalizing here with
  | nil =>
    rw [reached] at h
    split at h
    · cases h
    · next free =>
      obtain rfl := List.mem_singleton.mp h
      exact Bool.not_eq_true _ ▸ free
  | cons name rest ih =>
    rw [reached] at h
    split at h
    · cases h
    next free =>
    split at h
    · obtain rfl := List.mem_singleton.mp h
      exact Bool.not_eq_true _ ▸ free
    · rcases List.mem_cons.mp h with rfl | h
      · exact Bool.not_eq_true _ ▸ free
      · exact ih h

theorem passes_iff : d.passes here names = true ↔
    (∀ s ∈ stations here names, d.holdsFile s = false) ∧ ∀ name ∈ names, isTooLong name = false := by
  simp [passes]

/-- Along names that can be passed, directories are made everywhere. -/
theorem reached_of_passes (h : d.passes here names = true) :
    d.reached here names = stations here names := by
  induction names generalizing here with
  | nil =>
    obtain ⟨free, -⟩ := passes_iff.mp h
    rw [reached, stations, free here List.mem_cons_self, if_neg Bool.false_ne_true]
  | cons name rest ih =>
    obtain ⟨free, short⟩ := passes_iff.mp h
    rw [stations, List.forall_mem_cons] at free
    rw [List.forall_mem_cons] at short
    rw [reached, stations, free.1, short.1, if_neg Bool.false_ne_true, if_neg Bool.false_ne_true,
      ih (passes_iff.mpr ⟨free.2, short.2⟩)]

theorem reached_congr (same : ∀ s ∈ stations here names, e.holdsFile s = d.holdsFile s) :
    e.reached here names = d.reached here names := by
  induction names generalizing here with
  | nil => rw [reached, reached, same here List.mem_cons_self]
  | cons name rest ih =>
    obtain ⟨first, others⟩ := List.forall_mem_cons.mp same
    rw [reached, reached, first, ih others]

theorem passes_congr (same : ∀ s ∈ stations here names, e.holdsFile s = d.holdsFile s) :
    e.passes here names = d.passes here names := by
  have free : (∀ s ∈ stations here names, e.holdsFile s = false) ↔
      ∀ s ∈ stations here names, d.holdsFile s = false :=
    forall₂_congr fun s hs => by rw [same s hs]
  rw [Bool.eq_iff_iff, passes_iff, passes_iff, free]

/-! Making directories -/

theorem withDirectory?_of_holdsFile (h : d.holdsFile p = true) : d.withDirectory? p = none := by
  rw [holdsFile] at h
  split at h
  · next file => rw [withDirectory?, file]
  · cases h

/-- Where no file is, a directory can be made, and nothing else changes. -/
theorem exists_withDirectory? (h : d.holdsFile p = false) : ∃ e, d.withDirectory? p = some e ∧
    e.workingDirectory = d.workingDirectory ∧
      ∀ q, e.node? q = if q = p then some .directory else d.node? q := by
  rw [holdsFile] at h
  cases found : d.node? p with
  | none =>
    have free : d.node? p ≠ some .directory := by simp [found]
    exact ⟨d.put p .directory, by rw [withDirectory?, found], rfl,
      node?_put d .directory (ne_nil_of_node? free)⟩
  | some node =>
    cases node with
    | directory =>
      refine ⟨d, withDirectory?_of_directory found, rfl, fun q => ?_⟩
      split
      · next same => rw [same, found]
      · rfl
    | file content =>
      rw [found] at h
      cases h

theorem makeAlong_spec (d : Disk) (here : Place) (names : List String) :
    (d.makeAlong here names).1 = d.passes here names ∧
      (d.makeAlong here names).2.workingDirectory = d.workingDirectory ∧
        ∀ p, (d.makeAlong here names).2.node? p =
          if p ∈ d.reached here names then some .directory else d.node? p := by
  induction names generalizing d here with
  | nil =>
    cases file : d.holdsFile here with
    | true => simp [makeAlong, withDirectory?_of_holdsFile file, passes, stations, reached, file]
    | false =>
      obtain ⟨e, made, origin, nodes⟩ := exists_withDirectory? file
      simp [makeAlong, made, passes, stations, reached, file, origin, nodes]
  | cons name rest ih =>
    cases file : d.holdsFile here with
    | true => simp [makeAlong, withDirectory?_of_holdsFile file, passes, stations, reached, file]
    | false =>
      obtain ⟨e, made, origin, nodes⟩ := exists_withDirectory? file
      have same (q : Place) : e.holdsFile q = d.holdsFile q := by
        by_cases first : q = here
        · rw [first, file, holdsFile_of_directory (by rw [nodes, if_pos rfl])]
        · exact holdsFile_congr (by rw [nodes, if_neg first])
      cases long : isTooLong name with
      | true => simp [makeAlong, made, passes, reached, file, long, origin, nodes]
      | false =>
        obtain ⟨passed, origin', nodes'⟩ := ih e (here.enter name)
        rw [passes_congr fun s _ => same s] at passed
        rw [reached_congr fun s _ => same s] at nodes'
        have whole : d.makeAlong here (name :: rest) = e.makeAlong (here.enter name) rest := by
          simp [makeAlong, made, long]
        refine ⟨?_, ?_, fun p => ?_⟩
        · rw [whole, passed]
          simp [passes, stations, file, long]
        · rw [whole, origin', origin]
        · rw [whole, nodes', nodes, reached, file, long, if_neg Bool.false_ne_true,
            if_neg Bool.false_ne_true]
          simp only [List.mem_cons]
          grind

end

/-! The way to a path -/

/-- The places on the way to the directory of a path, that of the directory included. -/
def way (d : Disk) (path : String) : List Place := stations (d.origin path) (names path).dropLast

/-- The places of which directories are made to store a file at a path. -/
def made (d : Disk) (path : String) : List Place :=
  if (Path.parent? path).any isImpossible then []
  else d.reached (d.origin path) (names path).dropLast

/-- Whether the directory of a path can be made. -/
def canHouse (d : Disk) (path : String) : Bool :=
  !(Path.parent? path).any isImpossible && d.passes (d.origin path) (names path).dropLast

/-- Whether there is a disk on which a file can be at a path. -/
def canName (path : String) : Bool :=
  !isImpossible path && !endsAtDirectory path && (names path).all (!isTooLong ·)

variable {path content last directory : String}

theorem made_subset : d.made path ⊆ d.way path := by
  rw [made, way]
  split
  · exact List.nil_subset _
  · exact reached_subset

theorem holdsFile_of_mem_made (h : p ∈ d.made path) : d.holdsFile p = false := by
  rw [made] at h
  split at h
  · cases h
  · exact holdsFile_of_mem_reached h

theorem made_of_canHouse (h : d.canHouse path = true) : d.made path = d.way path := by
  rw [canHouse, Bool.and_eq_true, Bool.not_eq_true'] at h
  rw [made, h.1, if_neg Bool.false_ne_true, reached_of_passes h.2, way]

theorem Houses.origin (houses : Houses directory path last) (d : Disk) :
    d.origin directory = d.origin path := by
  rw [Disk.origin, Disk.origin, houses.absolute]

theorem Houses.dropLast_names (houses : Houses directory path last) :
    (names path).dropLast = names directory := by
  rw [houses.leads, List.dropLast_concat]

theorem Houses.makeDirectory (houses : Houses directory path last) (d : Disk) :
    (d.makeDirectory directory).1 = d.canHouse path ∧
      (d.makeDirectory directory).2.workingDirectory = d.workingDirectory ∧
        ∀ p, (d.makeDirectory directory).2.node? p =
          if p ∈ d.made path then some .directory else d.node? p := by
  have parent : (Path.parent? path).any isImpossible = isImpossible directory := by
    rw [houses.parent, Option.any_some]
  rw [canHouse, made, parent, houses.dropLast_names, ← houses.origin, Disk.makeDirectory]
  cases impossible : isImpossible directory with
  | true => simp
  | false => simpa using makeAlong_spec d (d.origin directory) (names directory)

theorem follow_concat_iff {front : List String} :
    d.follow here (front ++ [last]) = .ok p ↔
      (∀ s ∈ stations here front, d.node? s = some .directory) ∧
        (∀ name ∈ front ++ [last], isTooLong name = false) ∧ p = here.walk (front ++ [last]) := by
  induction front generalizing here with
  | nil =>
    rw [List.nil_append, follow, stations]
    cases found : d.node? here with
    | none => simp [found]
    | some node =>
      cases node with
      | file content => simp [found]
      | directory =>
        cases long : isTooLong last with
        | true => simp [found, long]
        | false => simp [found, long, follow, Place.walk, @eq_comm _ p]
  | cons name front ih =>
    rw [List.cons_append, follow, stations]
    cases found : d.node? here with
    | none => simp [found]
    | some node =>
      cases node with
      | file content => simp [found]
      | directory =>
        cases long : isTooLong name with
        | true => simp [long]
        | false => simp [found, long, ih]

/-- A file can be reached where every place on the way is a directory. -/
theorem Houses.isOpen_iff (houses : Houses directory path last) : d.IsOpen path ↔
    canName path = true ∧ ∀ s ∈ d.way path, d.node? s = some .directory := by
  have followed : d.follow (d.origin path) (names path) = .ok (d.place path) ↔
      (∀ s ∈ d.way path, d.node? s = some .directory) ∧
        ∀ name ∈ names path, isTooLong name = false := by
    rw [way, place, houses.dropLast_names, houses.leads, follow_concat_iff]
    simp only [and_true]
  have possible : canName path = true ↔ isImpossible path = false ∧ endsAtDirectory path = false ∧
      ∀ name ∈ names path, isTooLong name = false := by
    simp [canName, and_assoc]
  rw [possible]
  constructor
  · rintro ⟨possible, ofFile, follow⟩
    obtain ⟨directories, short⟩ := followed.mp follow
    exact ⟨⟨possible, ofFile, short⟩, directories⟩
  · rintro ⟨⟨possible, ofFile, short⟩, directories⟩
    exact ⟨possible, ofFile, followed.mpr ⟨directories, short⟩⟩

/-- Without a file on the way, the directory of a path that can be named can be made. -/
theorem Houses.canHouse_of_canName (houses : Houses directory path last) (name : canName path = true)
    (free : ∀ s ∈ d.way path, d.holdsFile s = false) : d.canHouse path = true := by
  simp only [canName, Bool.and_eq_true, Bool.not_eq_true', List.all_eq_true] at name
  obtain ⟨⟨possible, -⟩, short⟩ := name
  obtain ⟨rest, whole⟩ := houses.begins
  rw [whole] at possible
  rw [canHouse, houses.parent, Option.any_some, isImpossible_of_append possible, Bool.not_false,
    Bool.true_and]
  exact passes_iff.mpr ⟨free, fun name hname => short name (List.dropLast_subset _ hname)⟩

theorem Houses.read?_eq_some_iff (houses : Houses directory path last) :
    d.read? path = some content ↔ canName path = true ∧
      (∀ s ∈ d.way path, d.node? s = some .directory) ∧ d.node? (d.place path) = some (.file content) := by
  rw [Disk.read?_eq_some_iff, houses.isOpen_iff, and_assoc]

/-! Storing a file -/

/-- What comes of storing a file, and the disk after it. -/
def stored (d : Disk) (path content : String) : StoreOutcome × Disk :=
  (Storage.store path content : StateM Disk StoreOutcome).run d

/-- What is at the place of a path when the directories on its way are made. -/
def target? (d : Disk) (path : String) : Option Node :=
  if d.place path ∈ d.made path then some .directory else d.node? (d.place path)

/-- What storing a file puts at a place. -/
def puts? (d : Disk) (path content : String) (p : Place) : Option Node :=
  if p ∈ d.made path then some .directory
  else if p = d.place path ∧ (d.stored path content).1 = .written then some (.file content)
  else none

theorem storeInPlace_cases (path content : String) (d : Disk) :
    (d.IsOpen path ∧ d.node? (d.place path) = some (.file content) ∧
      (Storage.storeInPlace path content : StateM Disk StoreOutcome).run d = (.unchanged, d)) ∨
    (d.IsOpen path ∧ d.node? (d.place path) ≠ some .directory ∧
      d.node? (d.place path) ≠ some (.file content) ∧
        (Storage.storeInPlace path content : StateM Disk StoreOutcome).run d =
          (.written, d.put (d.place path) (.file content))) ∨
    (¬ (d.IsOpen path ∧ d.node? (d.place path) ≠ some .directory) ∧
      (Storage.storeInPlace path content : StateM Disk StoreOutcome).run d =
        (.failed (.write path), d)) := by
  rw [Storage.run_storeInPlace]
  by_cases held : d.read? path = some content
  · obtain ⟨isOpen, file⟩ := read?_eq_some_iff.mp held
    exact .inl ⟨isOpen, file, if_pos held⟩
  rw [if_neg held]
  rcases written : d.write path content with ⟨_ | _, e⟩
  · refine .inr (.inr ⟨?_, ?_⟩)
    · rintro ⟨isOpen, free⟩
      have done : d.write path content = (true, _) := write_eq_true_iff.mpr ⟨isOpen, free, rfl⟩
      rw [written] at done
      cases (Prod.mk.inj done).1
    · rw [eq_of_write_eq_false written]
  · obtain ⟨isOpen, free, rfl⟩ := write_eq_true_iff.mp written
    exact .inr (.inl ⟨isOpen, free, fun file => held (read?_eq_some_iff.mpr ⟨isOpen, file⟩), rfl⟩)

theorem Houses.stored_spec (houses : Houses directory path last) (d : Disk) (content : String) :
    (d.stored path content).1 =
      (if d.canHouse path = false then .failed (.create directory)
      else if canName path = true ∧ d.target? path = some (.file content) then .unchanged
      else if canName path = true ∧ d.target? path ≠ some .directory then .written
      else .failed (.write path)) ∧
    (d.stored path content).2.workingDirectory = d.workingDirectory ∧
    ∀ p, (d.stored path content).2.node? p = (d.puts? path content p).or (d.node? p) := by
  obtain ⟨can, origin, nodes⟩ := houses.makeDirectory d
  rcases run : d.makeDirectory directory with ⟨_ | _, e⟩
  · rw [run] at can origin nodes
    have failed : d.stored path content = (.failed (.create directory), e) := by
      rw [stored, Storage.run_store, houses.parent]
      dsimp only
      rw [run]
    refine ⟨by rw [failed, if_pos can.symm], by rw [failed, origin], fun p => ?_⟩
    rw [failed, nodes, puts?, failed]
    split <;> simp
  · rw [run] at can origin nodes
    have housed : d.stored path content =
        (Storage.storeInPlace path content : StateM Disk StoreOutcome).run e := by
      rw [stored, Storage.run_store, houses.parent]
      dsimp only
      rw [run]
    have directories : ∀ s ∈ e.way path, e.node? s = some .directory := by
      intro s hs
      rw [way, origin_congr origin, ← way, ← made_of_canHouse can.symm] at hs
      rw [nodes, if_pos hs]
    have isOpen : e.IsOpen path ↔ canName path = true := by
      rw [houses.isOpen_iff, and_iff_left directories]
    have place : e.place path = d.place path := place_congr origin path
    have target : e.node? (d.place path) = d.target? path := nodes _
    have cases := storeInPlace_cases path content e
    rw [isOpen, place, target, ← housed] at cases
    rw [← can, if_neg (Bool.false_ne_true ∘ Eq.symm)]
    obtain ⟨name, held, run⟩ | ⟨name, free, other, run⟩ | ⟨shut, run⟩ := cases
    · rw [run, if_pos ⟨name, held⟩]
      refine ⟨rfl, origin, fun p => ?_⟩
      rw [nodes, puts?, run]
      split <;> simp
    · rw [run, if_neg fun both => other both.2, if_pos ⟨name, free⟩]
      refine ⟨rfl, origin, fun p => ?_⟩
      have apart : d.place path ∉ d.made path := fun member => free (if_pos member)
      have filled : d.place path ≠ [] := ne_nil_of_node? (d := e) (by rwa [target])
      rw [node?_put e _ filled, nodes, puts?, run]
      by_cases same : p = d.place path
      · simp [same, apart]
      · rw [if_neg same]
        split <;> simp [same]
    · rw [run, if_neg fun both => shut ⟨both.1, by simp [both.2]⟩, if_neg shut]
      refine ⟨rfl, origin, fun p => ?_⟩
      rw [nodes, puts?, run]
      split <;> simp

theorem Houses.workingDirectory_stored (houses : Houses directory path last) (d : Disk)
    (content : String) : (d.stored path content).2.workingDirectory = d.workingDirectory :=
  (houses.stored_spec d content).2.1

theorem Houses.node?_stored (houses : Houses directory path last) (d : Disk) (content : String)
    (p : Place) : (d.stored path content).2.node? p = (d.puts? path content p).or (d.node? p) :=
  (houses.stored_spec d content).2.2 p

/-- Only at a place that is not on its own way a file is written. -/
theorem Houses.notMem_way_of_written (houses : Houses directory path last)
    (h : (d.stored path content).1 = .written) : d.place path ∉ d.way path := by
  rw [(houses.stored_spec d content).1] at h
  split at h
  · cases h
  next can =>
  split at h
  · cases h
  split at h
  · next written =>
    intro member
    rw [← made_of_canHouse (Bool.not_eq_false _ ▸ can)] at member
    exact written.2 (if_pos member)
  · cases h

/-- On another disk with files at the same places on the way, and the same at the place of the path
unless that is on the way, the same comes of storing a file, with the same changes. -/
theorem Houses.stored_congr (houses : Houses directory path last) (content : String)
    (origin : e.workingDirectory = d.workingDirectory)
    (files : ∀ s ∈ d.way path, e.holdsFile s = d.holdsFile s)
    (target : d.place path ∉ d.way path → e.node? (d.place path) = d.node? (d.place path)) :
    (e.stored path content).1 = (d.stored path content).1 ∧
      ∀ p, e.puts? path content p = d.puts? path content p := by
  have start : e.origin path = d.origin path := origin_congr origin path
  have place : e.place path = d.place path := place_congr origin path
  have can : e.canHouse path = d.canHouse path := by
    rw [canHouse, canHouse, start, passes_congr files]
  have made : e.made path = d.made path := by
    rw [Disk.made, Disk.made, start, reached_congr files]
  have outcome : (e.stored path content).1 = (d.stored path content).1 := by
    rw [(houses.stored_spec e content).1, (houses.stored_spec d content).1, can]
    split
    · rfl
    · next can =>
      have target : e.target? path = d.target? path := by
        rw [target?, target?, place, made]
        split
        · rfl
        · next free =>
          rw [made_of_canHouse (Bool.not_eq_false _ ▸ can)] at free
          exact target free
      rw [target]
  refine ⟨outcome, fun p => ?_⟩
  rw [puts?, puts?, made, place, outcome]

end GraphqlCrud.Disk
