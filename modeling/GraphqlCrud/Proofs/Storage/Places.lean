import GraphqlCrud.Proofs.Path.Parts
import GraphqlCrud.Storage.Disk
/-!
The place that a path means. It depends on the names of the path and on the place where the path
begins, and not on what is there.
-/
namespace GraphqlCrud

namespace Place

/-- The place that names lead to, if every name on the way is that of a directory. -/
def walk (here : Place) (names : List String) : Place := names.foldl enter here

@[simp] theorem walk_cons (here : Place) (name : String) (rest : List String) :
    here.walk (name :: rest) = (here.enter name).walk rest := rfl

theorem walk_append (here : Place) (front rest : List String) :
    here.walk (front ++ rest) = (here.walk front).walk rest := List.foldl_append

theorem walk_eq_append (here : Place) {names : List String} (down : ".." ∉ names) :
    here.walk names = here ++ names := by
  induction names generalizing here with
  | nil => exact (List.append_nil here).symm
  | cons name rest ih =>
    obtain ⟨first, later⟩ := List.ne_and_not_mem_of_not_mem_cons down
    rw [walk_cons, enter, if_neg (Ne.symm first), ih _ later, List.append_assoc,
      List.singleton_append]

end Place

namespace Path

theorem isAbsolute_append_left {front : String} (filled : front ≠ "") (rest : String) :
    isAbsolute (front ++ rest) = isAbsolute front := by
  obtain ⟨c, more, chars⟩ := Text.exists_toList_eq_cons filled
  have slash : "/".toList = ['/'] := rfl
  simp only [isAbsolute, Text.begins, String.toList_append, chars, slash, List.cons_append,
    Text.after?]
  split <;> rfl

theorem isAbsolute_join (base : String) {path : String} (relative : isAbsolute path = false) :
    isAbsolute (join base path) = isAbsolute base := by
  rw [join, if_neg (by simp [relative])]
  by_cases empty : base = ""
  · have blank : isAbsolute "" = false := by decide
    subst empty
    simpa [blank] using relative
  · split
    · exact isAbsolute_append_left empty path
    · rw [String.append_assoc]
      exact isAbsolute_append_left empty _

theorem exists_of_endsWithSlash {path : String} (slash : path.toList.getLast? = some '/') :
    ∃ front, path = front ++ "/" := by
  obtain ⟨front, chars⟩ := List.getLast?_eq_some_iff.mp slash
  refine ⟨String.ofList front, String.toList_injective ?_⟩
  rw [chars, String.toList_append, String.toList_ofList]
  rfl

end Path

namespace Disk

open GraphqlCrud.Path

@[simp] theorem names_empty : names "" = [] := by decide

theorem names_append (front rest : String) :
    names (front ++ "/" ++ rest) = names front ++ names rest := by
  rw [names, parts_append, List.filter_append, names, names]

theorem names_join (base : String) {path : String} (relative : isAbsolute path = false) :
    names (join base path) = names base ++ names path := by
  rw [join, if_neg (by simp [relative])]
  by_cases empty : base = ""
  · subst empty
    simp
  · by_cases slash : base.toList.getLast? = some '/'
    · obtain ⟨front, rfl⟩ := exists_of_endsWithSlash slash
      have whole := names_append front ""
      rw [String.append_empty, names_empty, List.append_nil] at whole
      rw [if_pos (by simp), names_append, whole]
    · rw [if_neg (by simp [empty, slash]), names_append]

theorem names_ofParts {parts : List String} (h : ∀ p ∈ parts, IsPart p) :
    names (ofParts parts) = parts := by
  rcases parts.eq_nil_or_concat with rfl | ⟨front, last, rfl⟩
  · exact names_empty
  · rw [names, parts_ofParts h (by simp), List.filter_eq_self]
    intro p hp
    simp [(h p hp).nonempty, (h p hp).notDot]

/-- The place that a path means on a disk. -/
def place (d : Disk) (path : String) : Place := (d.origin path).walk (names path)

theorem origin_congr {d e : Disk} (same : e.workingDirectory = d.workingDirectory)
    (path : String) : e.origin path = d.origin path := by rw [origin, origin, same]

theorem place_congr {d e : Disk} (same : e.workingDirectory = d.workingDirectory)
    (path : String) : e.place path = d.place path := by rw [place, place, origin_congr same]

/-- Below a directory the parts of a path are the names on the way, as long as none leads up. -/
theorem place_join (d : Disk) (directory : String) {parts : List String}
    (h : ∀ p ∈ parts, IsPart p) (down : ".." ∉ parts) :
    d.place (join directory (ofParts parts)) = d.place directory ++ parts := by
  have relative := isAbsolute_ofParts h
  rw [place, origin, isAbsolute_join directory relative, names_join directory relative,
    Place.walk_append, names_ofParts h, Place.walk_eq_append _ down]
  rfl

end Disk
end GraphqlCrud
