import GraphqlCrud.Proofs.Storage.Removal
/-!
What a removal leaves of a directory, and where its path leads afterwards. A directory whose path
does not end with its name may be said to be removed and be there still, empty; but the path is
missing in any case.
-/
namespace GraphqlCrud.Disk

variable {d e : Disk} {path : String}

/-! The directory itself -/

/-- Following a path that ends with a name goes down last. -/
theorem exists_names_of_endsWithName (h : endsWithName path = true) :
    ∃ front last, last ≠ ".." ∧ names path = front ++ [last] := by
  rw [endsWithName] at h
  split at h
  · next last final =>
    obtain ⟨front, whole⟩ := List.getLast?_eq_some_iff.mp final
    rw [Bool.and_eq_true, bne_iff_ne, bne_iff_ne] at h
    refine ⟨front.filter (· != "."), last, h.2, ?_⟩
    have twice : names path = ((Text.parts '/' path).filter (· != "")).filter (· != ".") := by
      rw [names, List.filter_filter]
      exact List.filter_congr fun name _ => Bool.and_comm ..
    rw [twice, whole, List.filter_append]
    simp [h.1]
  · cases h

theorem place_ne_nil_of_endsWithName (d : Disk) (h : endsWithName path = true) :
    d.place path ≠ [] := by
  obtain ⟨front, last, down, whole⟩ := exists_names_of_endsWithName h
  rw [place, whole, Place.walk_append, Place.walk_cons, Place.enter, if_neg down]
  exact List.append_ne_nil_of_right_ne_nil _ (List.cons_ne_nil _ _)

theorem node?_without {place p : Place} (top : place ≠ []) (within : isWithin place p = true) :
    (d.without place).node? p = none := by
  have below : p ≠ [] := by
    rintro rfl
    exact top (by simpa using isWithin_iff.mp within)
  rw [without, node?_keep d _ below, within]
  rfl

theorem node?_emptiedAt_self {place : Place} (directory : d.node? place = some .directory) :
    (d.emptiedAt place).node? place = some .directory := by
  by_cases root : place = []
  · rw [node?, if_pos root]
  · rw [emptiedAt, node?_keep d _ root, directory]
    simp

/-- A removal that is said to succeed leaves no directory at its place. -/
def RemovesWhole (d : Disk) (path : String) : Prop :=
  ∀ e, d.remove path = (.removed, e) → e.node? (d.place path) = none

/-- A removal takes the directory itself exactly where the path has a name for it. -/
theorem removesWhole_iff :
    d.RemovesWhole path ↔ ((d.remove path).1 = .removed → endsWithName path = true) := by
  constructor
  · intro whole answered
    rcases removal : d.remove path with ⟨answer, e⟩
    rw [removal] at answered
    subst answered
    have gone := whole e removal
    cases removes_of_remove removal with
    | whole _ named => exact named
    | lost found =>
      rw [node?_emptiedAt_self (leadsTo_of_find found).2.found] at gone
      cases gone
  · intro named e removal
    cases removes_of_remove removal with
    | whole _ named =>
      exact node?_without (place_ne_nil_of_endsWithName d named) (isWithin_self _)
    | lost _ nameless =>
      rw [named (congrArg Prod.fst removal)] at nameless
      cases nameless

/-- The way back out of a directory is no name of the one that it leads to. -/
example :
    let d := ((blank "home").makeDirectory "out/user").2
    (d.remove "out/user/..").1 = .removed ∧
      (d.remove "out/user/..").2.node? ["home", "out"] = some .directory := by
  decide +kernel

/-! Afterwards -/

theorem Clears.directory_or_none {place p : Place} (h : Clears place d e)
    (directory : d.node? p = some .directory) :
    e.node? p = some .directory ∨ e.node? p = none := by
  cases within : isWithin place p with
  | false => exact .inl ((h.outside p within).trans directory)
  | true => exact (h.inside p within).symm.imp_left And.right

/-- Where a place is cleared, names lead where they led before or are missing. -/
theorem Clears.follow {place here p : Place} {names : List String} (h : Clears place d e)
    (followed : d.follow here names = .ok p) :
    e.follow here names = .ok p ∨ e.follow here names = .error .missing := by
  induction names generalizing here with
  | nil => exact .inl followed
  | cons name rest ih =>
    simp only [Disk.follow] at followed
    split at followed
    · next directory =>
      split at followed
      · cases followed
      · next short =>
        simp only [Disk.follow]
        rcases h.directory_or_none directory with still | gone
        · simp only [still, short]
          exact ih followed
        · simp [gone]
    · cases followed
    · cases followed

theorem Clears.find {place : Place} (h : Clears place d e)
    (found : d.find path = .ok (d.place path, .directory)) :
    e.find path = .ok (d.place path, .directory) ∨ e.find path = .error .missing := by
  obtain ⟨-, leads⟩ := leadsTo_of_find found
  have filled : path ≠ "" := by
    rintro rfl
    rw [Disk.find, if_pos rfl] at found
    cases found
  rw [Disk.find, if_neg filled, leads.possible, if_neg Bool.false_ne_true, origin_congr h.origin]
  rcases h.follow leads.followed with followed | missing
  · rw [followed]
    rcases h.directory_or_none leads.found with still | gone
    · exact .inl (by simp [still])
    · exact .inr (by simp [gone])
  · exact .inr (by rw [missing])

theorem reaches_of_follow {here p : Place} {names : List String}
    (followed : d.follow here names = .ok p) (directory : d.node? p = some .directory) :
    d.reaches here names = true := by
  induction names generalizing here with
  | nil => rfl
  | cons name rest ih =>
    have next : d.follow (here.enter name) rest = .ok p := by
      simp only [follow] at followed
      split at followed
      · split at followed
        · cases followed
        · exact followed
      · cases followed
      · cases followed
    have entered : d.node? (here.enter name) = some .directory := by
      cases rest with
      | nil =>
        obtain rfl := Except.ok.inj next
        exact directory
      | cons =>
        simp only [follow] at next
        split at next
        · assumption
        · cases next
        · cases next
    simp [reaches, entered, ih next]

/-- Once a directory has been removed its path is missing, even if the directory is there still. -/
theorem Removes.find_eq_missing (h : Removes d path .removed e) : e.find path = .error .missing := by
  cases h with
  | whole found named =>
    obtain ⟨-, leads⟩ := leadsTo_of_find found
    have clears := clears_without leads.found
    rcases clears.find found with again | missing
    · have still := (leadsTo_of_find again).2.found
      rw [place_congr clears.origin, node?_without (place_ne_nil_of_endsWithName d named)
        (isWithin_self _)] at still
      cases still
    · exact missing
  | lost found _ unreached =>
    have clears := clears_emptiedAt (leadsTo_of_find found).2.found
    rcases clears.find found with again | missing
    · obtain ⟨-, leads⟩ := leadsTo_of_find again
      rw [← origin_congr clears.origin, reaches_of_follow leads.followed leads.found] at unreached
      cases unreached
    · exact missing

/-- Nothing is left in a directory that has been removed. -/
theorem Removes.below (h : Removes d path .removed e) {p : Place}
    (within : isWithin (d.place path) p = true) (other : p ≠ d.place path) :
    e.node? p = none :=
  (h.clears.2.inside p within).resolve_right fun directory => other directory.1

end GraphqlCrud.Disk
