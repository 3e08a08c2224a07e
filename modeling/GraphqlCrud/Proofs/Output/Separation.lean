import Mathlib.Data.List.Nodup
import GraphqlCrud.Proofs.Output.Delivery
import GraphqlCrud.Proofs.Storage.Ways
/-!
Deliveries of files that keep out of each other's way. Each file is stored as it would be alone, and
the disk is what the changes for the single files make of it together, in whatever order they come.
A file that cannot be stored makes no difference to the others, though some of its directories may be
made.
-/
namespace GraphqlCrud.Output

open Disk Storage GraphqlCrud.Path

/-- Paths at which files can be all at once: below a directory and without detours, no two the same,
and none on the way to another. -/
structure AreSeparate (files : List OutputFile) : Prop where
  normal : ∀ f ∈ files, ∀ part ∈ Text.parts '/' f.path, part ∉ ["", ".", ".."]
  distinct : (files.map (·.path)).Nodup
  apart : ∀ f ∈ files, ∀ g ∈ files,
    Text.parts '/' f.path <+: Text.parts '/' g.path → f.path = g.path

theorem AreSeparate.perm {files others : List OutputFile} (h : AreSeparate files)
    (same : others.Perm files) : AreSeparate others where
  normal := fun f hf => h.normal f (same.mem_iff.mp hf)
  distinct := (same.map _).nodup_iff.mpr h.distinct
  apart := fun f hf g hg => h.apart f (same.mem_iff.mp hf) g (same.mem_iff.mp hg)

variable {d e : Disk} {directory : String} {files done : List OutputFile} {f g : OutputFile}
  {p : Place}

/-! The way to a file below a directory -/

section

variable (normal : ∀ part ∈ Text.parts '/' f.path, part ∉ ["", ".", ".."])

include normal

theorem isPart_of_normal : (∀ part ∈ Text.parts '/' f.path, IsPart part) ∧
    ".." ∉ Text.parts '/' f.path := by
  constructor
  · intro part hpart
    have proper := normal part hpart
    simp only [List.mem_cons, not_or] at proper
    exact ⟨proper.1, proper.2.1, whole_of_mem_parts f.path part hpart⟩
  · intro up
    exact normal ".." up (by simp)

theorem isAbsolute_of_normal : isAbsolute f.path = false := by
  rw [← ofParts_parts f.path]
  exact isAbsolute_ofParts (isPart_of_normal normal).1

theorem placeBelow_of_normal (d : Disk) (directory : String) :
    f.placeBelow d directory = d.place directory ++ Text.parts '/' f.path := by
  obtain ⟨named, down⟩ := isPart_of_normal normal
  have place := place_join d directory named down
  rwa [ofParts_parts] at place

theorem exists_houses_fullPath (directory : String) :
    ∃ parent last, Houses parent (f.fullPath directory) last := by
  obtain ⟨before, whole⟩ := parts_join directory (isAbsolute_of_normal normal)
  obtain ⟨front, last, parts⟩ := (List.eq_nil_or_concat' _).resolve_left (parts_ne_nil f.path)
  have named : IsPart last := (isPart_of_normal normal).1 last (by simp [parts])
  rw [parts, ← List.append_assoc] at whole
  obtain ⟨parent, houses⟩ := exists_houses whole.symm named
  exact ⟨parent, last, houses⟩

theorem way_of_normal (d : Disk) (directory : String) : d.way (f.fullPath directory) =
    stations (d.origin directory) (names directory ++ (Text.parts '/' f.path).dropLast) := by
  have relative := isAbsolute_of_normal normal
  have below : names f.path = Text.parts '/' f.path := by
    rw [← names_ofParts (isPart_of_normal normal).1, ofParts_parts]
  rw [way, OutputFile.fullPath, names_join directory relative, below,
    List.dropLast_append_of_ne_nil (parts_ne_nil f.path), origin, isAbsolute_join directory relative,
    ← origin]

end

/-- A file on the way to another is on its own way, because the directory leads through it. -/
theorem AreSeparate.mem_way (h : AreSeparate files) (hf : f ∈ files) (hg : g ∈ files)
    (member : f.placeBelow d directory ∈ d.way (g.fullPath directory)) :
    f.placeBelow d directory ∈ d.way (f.fullPath directory) := by
  rw [way_of_normal (h.normal g hg), mem_stations_append] at member
  rw [way_of_normal (h.normal f hf), mem_stations_append]
  rcases member with base | below
  · exact .inl base
  · have down : ".." ∉ (Text.parts '/' g.path).dropLast := fun up =>
      (isPart_of_normal (h.normal g hg)).2 (List.dropLast_subset _ up)
    obtain ⟨front, shorter, place⟩ := exists_prefix_of_mem_stations down below
    rw [placeBelow_of_normal (h.normal f hf)] at place
    obtain rfl := List.append_cancel_left place
    -- The file would be a directory of the other, and then both would have the same parts.
    have same := h.apart f hf g hg (shorter.trans (List.dropLast_prefix _))
    have lengths := shorter.length_le
    have filled := List.length_pos_iff.mpr (parts_ne_nil g.path)
    rw [same, List.length_dropLast] at lengths
    omega

/-- No two files have the same place. -/
theorem AreSeparate.eq_of_placeBelow (h : AreSeparate files) (hf : f ∈ files) (hg : g ∈ files)
    (same : f.placeBelow d directory = g.placeBelow d directory) : f = g := by
  rw [placeBelow_of_normal (h.normal f hf), placeBelow_of_normal (h.normal g hg)] at same
  have paths : f.path = g.path := by
    rw [← ofParts_parts f.path, List.append_cancel_left same, ofParts_parts]
  exact List.inj_on_of_nodup_map h.distinct hf hg paths

/-! What each file changes -/

/-- What comes of a file and of the disk when the file is stored and no other. -/
def OutputFile.alone (f : OutputFile) (d : Disk) (directory : String) : StoreOutcome × Disk :=
  d.stored (f.fullPath directory) f.content

/-- What storing the file puts at a place. -/
def OutputFile.puts? (f : OutputFile) (d : Disk) (directory : String) (p : Place) :
    Option Node := d.puts? (f.fullPath directory) f.content p

theorem AreSeparate.node?_alone (h : AreSeparate files) (hf : f ∈ files) (d : Disk)
    (directory : String) (p : Place) : (f.alone d directory).2.node? p =
      (f.puts? d directory p).or (d.node? p) := by
  obtain ⟨parent, last, houses⟩ := exists_houses_fullPath (h.normal f hf) directory
  exact houses.node?_stored d f.content p

/-- A file puts directories on its way, and itself at a place that is on no way. -/
theorem AreSeparate.change_cases (h : AreSeparate files) (hf : f ∈ files) {node : Node}
    (change : f.puts? d directory p = some node) :
    (node = .directory ∧ p ∈ d.way (f.fullPath directory) ∧ d.holdsFile p = false) ∨
      (node = .file f.content ∧ p = f.placeBelow d directory ∧
        ∀ g ∈ files, p ∉ d.way (g.fullPath directory)) := by
  rw [OutputFile.puts?, puts?] at change
  split at change
  · next made =>
    exact .inl ⟨(Option.some.inj change).symm, made_subset made, holdsFile_of_mem_made made⟩
  split at change
  · next written =>
    obtain ⟨rfl, written⟩ := written
    obtain ⟨parent, last, houses⟩ := exists_houses_fullPath (h.normal f hf) directory
    refine .inr ⟨(Option.some.inj change).symm, rfl, fun g hg member => ?_⟩
    exact houses.notMem_way_of_written written (h.mem_way hf hg member)
  · cases change

/-- Files that change the same place put the same there. -/
theorem AreSeparate.change_unique (h : AreSeparate files) (hf : f ∈ files) (hg : g ∈ files)
    {node other : Node} (change : f.puts? d directory p = some node)
    (change' : g.puts? d directory p = some other) : node = other := by
  rcases h.change_cases hf change with ⟨rfl, way, -⟩ | ⟨rfl, place, free⟩
  · rcases h.change_cases hg change' with ⟨rfl, -, -⟩ | ⟨-, -, free'⟩
    · rfl
    · exact absurd way (free' f hf)
  · rcases h.change_cases hg change' with ⟨-, way', -⟩ | ⟨rfl, place', -⟩
    · exact absurd way' (free g hg)
    · rw [h.eq_of_placeBelow hf hg (place.symm.trans place')]

/-- A place of a file that is not on its way is changed by no other file. -/
theorem AreSeparate.eq_of_change (h : AreSeparate files) (hf : f ∈ files) (hg : g ∈ files)
    (free : f.placeBelow d directory ∉ d.way (f.fullPath directory)) {node : Node}
    (change : g.puts? d directory (f.placeBelow d directory) = some node) : g = f := by
  rcases h.change_cases hg change with ⟨-, way, -⟩ | ⟨-, place, -⟩
  · exact absurd (h.mem_way hf hg way) free
  · exact (h.eq_of_placeBelow hf hg place).symm

/-! The changes together -/

/-- The disk is the first one with the changes that the files make to it. -/
structure Merges (d : Disk) (directory : String) (done : List OutputFile) (e : Disk) : Prop where
  origin : e.workingDirectory = d.workingDirectory
  node : ∀ p, (e.node? p = d.node? p ∧ ∀ f ∈ done, f.puts? d directory p = none) ∨
    ∃ f ∈ done, ∃ node, f.puts? d directory p = some node ∧ e.node? p = some node

theorem Merges.refl (d : Disk) (directory : String) : Merges d directory [] d :=
  ⟨rfl, fun _ => .inl ⟨rfl, nofun⟩⟩

section

variable (h : AreSeparate files) (within : done ⊆ files) (merges : Merges d directory done e)

include h within merges

/-- On the way to a file nothing changes but that directories come to be. -/
theorem Merges.holdsFile (hf : f ∈ files) (hp : p ∈ d.way (f.fullPath directory)) :
    e.holdsFile p = d.holdsFile p := by
  rcases merges.node p with ⟨same, -⟩ | ⟨g, hg, node, change, now⟩
  · exact holdsFile_congr same
  · rcases h.change_cases (within hg) change with ⟨rfl, -, free⟩ | ⟨-, -, free⟩
    · rw [free, holdsFile_of_directory now]
    · exact absurd hp (free f hf)

theorem Merges.node?_placeBelow (hf : f ∈ files)
    (free : f.placeBelow d directory ∉ d.way (f.fullPath directory)) :
    e.node? (f.placeBelow d directory) =
      if f ∈ done then (f.alone d directory).2.node? (f.placeBelow d directory)
      else d.node? (f.placeBelow d directory) := by
  rcases merges.node (f.placeBelow d directory) with ⟨same, unchanged⟩ | ⟨g, hg, node, change, now⟩
  · split
    · next member => rw [h.node?_alone hf, unchanged f member, Option.none_or, same]
    · exact same
  · obtain rfl := h.eq_of_change hf (within hg) free change
    rw [if_pos hg, h.node?_alone hf, change, now, Option.some_or]

/-- Where the directory of a file can be made, every place on its way is a directory. -/
theorem Merges.node?_way (hf : f ∈ done) (can : d.canHouse (f.fullPath directory) = true) :
    ∀ s ∈ d.way (f.fullPath directory), e.node? s = some .directory := by
  intro s hs
  have change : f.puts? d directory s = some .directory := by
    rw [← made_of_canHouse can] at hs
    exact if_pos hs
  rcases merges.node s with ⟨-, unchanged⟩ | ⟨g, hg, node, change', now⟩
  · rw [unchanged f hf] at change
    cases change
  · rw [now, h.change_unique (within hg) (within hf) change' change]

/-- What can be read at the path of a file depends on this file alone. -/
theorem Merges.read?_eq_some_iff (hf : f ∈ done) {content : String} :
    e.read? (f.fullPath directory) = some content ↔
      canName (f.fullPath directory) = true ∧ d.canHouse (f.fullPath directory) = true ∧
        f.placeBelow d directory ∉ d.way (f.fullPath directory) ∧
          (f.alone d directory).2.node? (f.placeBelow d directory) = some (.file content) := by
  obtain ⟨parent, last, houses⟩ := exists_houses_fullPath (h.normal f (within hf)) directory
  have way : e.way (f.fullPath directory) = d.way (f.fullPath directory) := by
    rw [way, origin_congr merges.origin, ← Disk.way]
  have place : e.place (f.fullPath directory) = f.placeBelow d directory :=
    place_congr merges.origin _
  rw [houses.read?_eq_some_iff, way, place]
  constructor
  · rintro ⟨name, directories, file⟩
    have free : f.placeBelow d directory ∉ d.way (f.fullPath directory) := by
      intro member
      rw [directories _ member] at file
      cases file
    have can := houses.canHouse_of_canName name fun s hs => by
      rw [← merges.holdsFile h within (within hf) hs, holdsFile_of_directory (directories s hs)]
    rw [merges.node?_placeBelow h within (within hf) free, if_pos hf] at file
    exact ⟨name, can, free, file⟩
  · rintro ⟨name, can, free, file⟩
    refine ⟨name, merges.node?_way h within hf can, ?_⟩
    rw [merges.node?_placeBelow h within (within hf) free, if_pos hf, file]

/-- The next file is stored as it would be alone. -/
theorem Merges.step (hf : f ∈ files) (fresh : f ∉ done) :
    (f.alone e directory).1 = (f.alone d directory).1 ∧
      Merges d directory (done ++ [f]) (f.alone e directory).2 := by
  obtain ⟨parent, last, houses⟩ := exists_houses_fullPath (h.normal f hf) directory
  have target (free : f.placeBelow d directory ∉ d.way (f.fullPath directory)) :
      e.node? (f.placeBelow d directory) = d.node? (f.placeBelow d directory) := by
    rw [merges.node?_placeBelow h within hf free, if_neg fresh]
  have files : ∀ s ∈ d.way (f.fullPath directory), e.holdsFile s = d.holdsFile s :=
    fun s hs => merges.holdsFile h within hf hs
  obtain ⟨outcome, changes⟩ : (f.alone e directory).1 = (f.alone d directory).1 ∧
      ∀ p, f.puts? e directory p = f.puts? d directory p :=
    houses.stored_congr f.content merges.origin files target
  have origin : (f.alone e directory).2.workingDirectory = d.workingDirectory :=
    (houses.workingDirectory_stored e f.content).trans merges.origin
  refine ⟨outcome, origin, fun p => ?_⟩
  have after := h.node?_alone hf e directory p
  rw [changes] at after
  cases change : f.puts? d directory p with
  | some node =>
    exact .inr ⟨f, by simp, node, change, by rw [after, change, Option.some_or]⟩
  | none =>
    rw [change, Option.none_or] at after
    rcases merges.node p with ⟨same, unchanged⟩ | ⟨g, hg, node, change', now⟩
    · refine .inl ⟨after.trans same, fun g hg => ?_⟩
      rcases List.mem_append.mp hg with hg | hg
      · exact unchanged g hg
      · obtain rfl := List.mem_singleton.mp hg
        exact change
    · exact .inr ⟨g, List.mem_append_left _ hg, node, change', after.trans now⟩

end

theorem AreSeparate.merges_alone (h : AreSeparate files) (hf : f ∈ files) (d : Disk)
    (directory : String) : Merges d directory [f] (f.alone d directory).2 :=
  ((Merges.refl d directory).step h (List.nil_subset _) hf List.not_mem_nil).2

/-- In the end every file can be read, or not, as if it had been stored alone. -/
theorem Merges.read?_eq (h : AreSeparate files) (merges : Merges d directory files e)
    (hf : f ∈ files) : e.read? (f.fullPath directory) =
      (f.alone d directory).2.read? (f.fullPath directory) := by
  have single : [f] ⊆ files := List.cons_subset.mpr ⟨hf, List.nil_subset _⟩
  apply Option.ext
  intro content
  rw [merges.read?_eq_some_iff h (List.Subset.refl _) hf,
    (h.merges_alone hf d directory).read?_eq_some_iff h single List.mem_cons_self]

/-- Attempts one after another give what each would give alone. -/
theorem run_attempts_of_merges {rest : List OutputFile} (h : AreSeparate (done ++ rest))
    (merges : Merges d directory done e) :
    ∃ last, (attempts directory rest).run e =
        (rest.map fun f => (f.path, (f.alone d directory).1), last) ∧
      Merges d directory (done ++ rest) last := by
  induction rest generalizing done e with
  | nil => exact ⟨e, run_attempts_nil directory e, by rwa [List.append_nil]⟩
  | cons f rest ih =>
    have fresh : f ∉ done := by
      have distinct := List.Nodup.of_map _ h.distinct
      exact fun member => (List.nodup_append.mp distinct).2.2 f member f List.mem_cons_self rfl
    have whole : done ++ f :: rest = done ++ [f] ++ rest := by simp
    obtain ⟨outcome, next⟩ := merges.step h (List.subset_append_left _ _) (by simp) fresh
    rw [whole] at h
    obtain ⟨last, run, all⟩ := ih h next
    have alone : (store (f.fullPath directory) f.content : StateM Disk StoreOutcome).run e =
        f.alone e directory := rfl
    have first : (store (f.fullPath directory) f.content : StateM Disk StoreOutcome).run e =
        ((f.alone d directory).1, (f.alone e directory).2) := by
      rw [alone, ← outcome]
    refine ⟨last, ?_, by rwa [whole]⟩
    rw [run_attempts_cons first run, List.map_cons]

/-! Deliveries -/

/-- The delivery of files in the order of their groups, and the disk after it. -/
def delivered (d : Disk) (directory : String) (files : List OutputFile) : Delivery × Disk :=
  (deliver directory (inGroupOrder files) : StateM Disk Delivery).run d

theorem AreSeparate.delivered_eq (h : AreSeparate files) (d : Disk) (directory : String) :
    (delivered d directory files).1.attempts =
        (inGroupOrder files).map (fun f => (f.path, (f.alone d directory).1)) ∧
      Merges d directory (inGroupOrder files) (delivered d directory files).2 := by
  have ordered : AreSeparate ([] ++ inGroupOrder files) := h.perm (inGroupOrder_perm files)
  obtain ⟨last, run, merges⟩ := run_attempts_of_merges ordered (.refl d directory)
  rw [delivered, run_deliver, run]
  exact ⟨rfl, merges⟩

theorem Merges.perm {others : List OutputFile} (merges : Merges d directory files e)
    (same : others.Perm files) : Merges d directory others e where
  origin := merges.origin
  node := fun p => by simpa only [same.mem_iff] using merges.node p

/-- The changes of the files leave no choice what the disk is. -/
theorem Merges.node?_unique {e' : Disk} (h : AreSeparate files) (merges : Merges d directory files e)
    (merges' : Merges d directory files e') (p : Place) : e'.node? p = e.node? p := by
  rcases merges.node p with ⟨same, unchanged⟩ | ⟨f, hf, node, change, now⟩
  · rcases merges'.node p with ⟨same', -⟩ | ⟨g, hg, node, change, -⟩
    · rw [same, same']
    · rw [unchanged g hg] at change
      cases change
  · rcases merges'.node p with ⟨-, unchanged⟩ | ⟨g, hg, node', change', now'⟩
    · rw [unchanged f hf] at change
      cases change
    · rw [now, now', h.change_unique hg hf change' change]

theorem Merges.node_alone (h : AreSeparate files) (merges : Merges d directory files e) (p : Place) :
    (e.node? p = d.node? p ∧ ∀ f ∈ files, (f.alone d directory).2.node? p = d.node? p) ∨
      ∃ f ∈ files, (f.alone d directory).2.node? p ≠ d.node? p ∧
        e.node? p = (f.alone d directory).2.node? p := by
  rcases merges.node p with ⟨same, unchanged⟩ | ⟨f, hf, node, change, now⟩
  · refine .inl ⟨same, fun f hf => ?_⟩
    rw [h.node?_alone hf, unchanged f hf, Option.none_or]
  · have alone : (f.alone d directory).2.node? p = some node := by
      rw [h.node?_alone hf, change, Option.some_or]
    by_cases before : d.node? p = some node
    · refine .inl ⟨now.trans before.symm, fun g hg => ?_⟩
      rw [h.node?_alone hg]
      cases change' : g.puts? d directory p with
      | none => exact Option.none_or
      | some other => rw [h.change_unique hg hf change' change, Option.some_or, before]
    · exact .inr ⟨f, hf, by rwa [alone, ne_comm], now.trans alone.symm⟩

/-- A file that is none of the delivery stays as it is, and no other comes to be. -/
theorem Merges.file_iff (h : AreSeparate files) (merges : Merges d directory files e)
    (other : p ∉ files.map (·.placeBelow d directory)) (content : String) :
    e.node? p = some (.file content) ↔ d.node? p = some (.file content) := by
  rcases merges.node p with ⟨same, -⟩ | ⟨f, hf, node, change, now⟩
  · rw [same]
  · rcases h.change_cases hf change with ⟨rfl, -, free⟩ | ⟨-, place, -⟩
    · rw [now]
      refine iff_of_false nofun fun file => ?_
      rw [Disk.holdsFile, file] at free
      cases free
    · exact absurd (List.mem_map.mpr ⟨f, hf, place.symm⟩) other

/-- The files of a delivery do not see each other: each fares as if it were the only one. -/
structure DeliversApart (d : Disk) (directory : String) (files : List OutputFile) : Prop where
  attempts : (delivered d directory files).1.attempts =
    (inGroupOrder files).map fun f => (f.path, (f.alone d directory).1)
  total : (delivered d directory files).1.written + (delivered d directory files).1.unchanged +
    (delivered d directory files).1.failures.length = files.length
  read : ∀ f ∈ files, (delivered d directory files).2.read? (f.fullPath directory) =
    (f.alone d directory).2.read? (f.fullPath directory)
  /-- What is at a place is what one of the files alone has made of it, if one makes something of it
  at all. -/
  node : ∀ p, ((delivered d directory files).2.node? p = d.node? p ∧
      ∀ f ∈ files, (f.alone d directory).2.node? p = d.node? p) ∨
    ∃ f ∈ files, (f.alone d directory).2.node? p ≠ d.node? p ∧
      (delivered d directory files).2.node? p = (f.alone d directory).2.node? p
  elsewhere : ∀ p ∉ files.map (·.placeBelow d directory), ∀ content,
    (delivered d directory files).2.node? p = some (.file content) ↔
      d.node? p = some (.file content)
  order : ∀ others : List OutputFile, others.Perm files →
    (delivered d directory others).1.attempts.Perm (delivered d directory files).1.attempts ∧
      ∀ p, (delivered d directory others).2.node? p = (delivered d directory files).2.node? p

theorem deliver_apart (h : AreSeparate files) (d : Disk) (directory : String) :
    DeliversApart d directory files := by
  obtain ⟨attempts, ordered⟩ := h.delivered_eq d directory
  have merges := ordered.perm (inGroupOrder_perm files).symm
  constructor
  case attempts => exact attempts
  case total =>
    have all := Delivery.total_eq (delivered d directory files).1
    rw [attempts, List.length_map, (inGroupOrder_perm files).length_eq] at all
    exact all
  case read => exact fun f hf => merges.read?_eq h hf
  case node => exact merges.node_alone h
  case elsewhere => exact fun p other content => merges.file_iff h other content
  case order =>
    intro others same
    obtain ⟨attempts', ordered'⟩ := (h.perm same).delivered_eq d directory
    have regrouped : (inGroupOrder others).Perm files := (inGroupOrder_perm others).trans same
    refine ⟨?_, merges.node?_unique h (ordered'.perm regrouped.symm)⟩
    rw [attempts, attempts']
    exact (regrouped.trans (inGroupOrder_perm files).symm).map _

/-- A file where the directory of a model is needed, and one that is as it should be. -/
def blockedDisk : Disk :=
  (((Disk.blank "home").put ["home", "out"] .directory).put ["home", "out", "User"]
    (.file "not a directory")).put ["home", "out", "utils.ts"] (.file "c")

def postFile : OutputFile := { path := "Post/object.base.ts", content := "b", group := .model }

def siblings : List OutputFile := [
  { path := "utils.ts", content := "c", group := .root },
  { path := "User/object.base.ts", content := "a", group := .model },
  postFile]

/-- The file of the one model fails, and the others fare as they would without it. -/
theorem deliver_apart_siblings : AreSeparate siblings ∧
    (delivered blockedDisk "out" siblings).1.attempts = [
      ("User/object.base.ts", .failed (.create "out/User")), ("Post/object.base.ts", .written),
      ("utils.ts", .unchanged)] ∧
    (delivered blockedDisk "out" siblings).2.read? (postFile.fullPath "out") = some "b" ∧
    (delivered blockedDisk "out" siblings).2.node? ["home", "out", "User"] =
      some (.file "not a directory") := by
  have separate : AreSeparate siblings :=
    ⟨by decide +kernel, by decide +kernel, by decide +kernel⟩
  have apart := deliver_apart separate blockedDisk "out"
  have outcomes : (inGroupOrder siblings).map (fun f => (f.path, (f.alone blockedDisk "out").1)) = [
      ("User/object.base.ts", .failed (.create "out/User")), ("Post/object.base.ts", .written),
      ("utils.ts", .unchanged)] := by
    decide +kernel
  have content : (postFile.alone blockedDisk "out").2.read? (postFile.fullPath "out") = some "b" := by
    decide +kernel
  have before : blockedDisk.node? ["home", "out", "User"] = some (.file "not a directory") := by
    decide +kernel
  have other : ["home", "out", "User"] ∉ siblings.map (·.placeBelow blockedDisk "out") := by
    decide +kernel
  have member : postFile ∈ siblings := .tail _ (.tail _ (.head _))
  exact ⟨separate, apart.attempts.trans outcomes, (apart.read postFile member).trans content,
    (apart.elsewhere _ other _).mpr before⟩

end GraphqlCrud.Output
