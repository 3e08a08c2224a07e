import Mathlib.Data.List.Basic
import Mathlib.Data.List.TakeWhile
import GraphqlCrud.Proofs.Storage.Places
/-!
The directory of a path: the path without its last name.
-/
namespace GraphqlCrud.Path

theorem notMem_of_mem_splitOn {c : Char} (s : List Char) : ∀ part ∈ s.splitOn c, c ∉ part := by
  induction s with
  | nil => simp
  | cons d s ih =>
    rw [List.splitOn_cons_eq_if_modifyHead]
    obtain ⟨first, others, cut⟩ := List.exists_cons_of_ne_nil (List.splitOn_ne_nil c s)
    rw [cut, List.forall_mem_cons] at ih
    rw [cut]
    split
    · exact List.forall_mem_cons.mpr ⟨List.not_mem_nil, List.forall_mem_cons.mpr ih⟩
    · next other =>
      have apart : c ≠ d := fun same => other (by simp [same])
      exact List.forall_mem_cons.mpr ⟨List.not_mem_cons_of_ne_of_not_mem apart ih.1, ih.2⟩

/-- No part holds a slash. -/
theorem whole_of_mem_parts (path : String) : ∀ p ∈ Text.parts '/' path, '/' ∉ p.toList := by
  intro p hp
  obtain ⟨part, hpart, rfl⟩ := List.mem_map.mp hp
  rw [String.toList_ofList]
  exact notMem_of_mem_splitOn _ part hpart

theorem ofParts_parts (path : String) : ofParts (Text.parts '/' path) = path := by
  have slash : "/".toList = ['/'] := rfl
  have kept : String.toList ∘ String.ofList = id := funext fun _ => String.toList_ofList
  apply String.toList_injective
  rw [ofParts, String.toList_intercalate, Text.parts, List.map_map, kept, List.map_id, slash,
    List.intercalate_splitOn]

theorem ofParts_append (first second : List String) :
    ∃ rest, ofParts (first ++ second) = ofParts first ++ rest := by
  by_cases none : first = []
  · exact ⟨ofParts second, by simp [none, ofParts]⟩
  by_cases last : second = []
  · exact ⟨"", by simp [last]⟩
  refine ⟨"/" ++ ofParts second, ?_⟩
  rw [ofParts, String.intercalate_append_of_ne_nil none last, String.append_assoc]
  rfl

/-- What an absolute path begins with. -/
def root (path : String) : String := if isAbsolute path then "/" else ""

variable {path : String}

theorem eq_root_append_body (path : String) :
    path = root path ++ ofParts ((bodyParts path).map (·.1)) := by
  rw [bodyParts]
  cases found : Text.dropLeading? "/" path with
  | some body =>
    have whole := Text.dropLeading?_eq_some.mp found
    have absolute : isAbsolute path = true := by
      rw [whole]
      exact Text.begins_append "/" body
    have parts : ((Text.parts '/' body).map fun part => (part, !isVoid false part)).map (·.1) =
        Text.parts '/' body := by simp [Function.comp_def]
    rw [root, if_pos absolute, parts, ofParts_parts]
    exact whole
  | none =>
    have relative : isAbsolute path = false := by
      rw [Bool.eq_false_iff]
      intro absolute
      obtain ⟨body, whole⟩ := Text.begins_iff.mp absolute
      rw [Text.dropLeading?_eq_some.mpr whole] at found
      cases found
    have parts (l : List String) : (namedParts l).map (·.1) = l := by
      cases l <;> simp [namedParts, Function.comp_def]
    rw [root, relative, if_neg Bool.false_ne_true, String.empty_append, parts, ofParts_parts]

/-- A part that is marked names something, and only an empty part or a dot does not. -/
structure IsMarked (part : String × Bool) : Prop where
  whole : '/' ∉ part.1.toList
  void : part.2 = false → part.1 = "" ∨ part.1 = "."
  named : IsPart part.1 → part.2 = true

theorem isMarked_of_isVoid {part : String} (whole : '/' ∉ part.toList) (beginsPath : Bool) :
    IsMarked (part, !isVoid beginsPath part) where
  whole := whole
  void := by
    intro unnamed
    simp only [isVoid, Bool.not_eq_false', Bool.or_eq_true, beq_iff_eq, Bool.and_eq_true] at unnamed
    exact unnamed.imp_right And.left
  named := fun named => by rw [named.isVoid_eq_false, Bool.not_false]

theorem isMarked_of_mem_bodyParts : ∀ part ∈ bodyParts path, IsMarked part := by
  rw [bodyParts]
  cases Text.dropLeading? "/" path with
  | some body =>
    intro part hpart
    obtain ⟨p, hp, rfl⟩ := List.mem_map.mp hpart
    exact isMarked_of_isVoid (whole_of_mem_parts body p hp) false
  | none =>
    have whole := whole_of_mem_parts path
    cases parts : Text.parts '/' path with
    | nil => exact List.forall_mem_nil _
    | cons first rest =>
      rw [parts, List.forall_mem_cons] at whole
      refine List.forall_mem_cons.mpr ⟨isMarked_of_isVoid whole.1 true, ?_⟩
      intro part hpart
      obtain ⟨p, hp, rfl⟩ := List.mem_map.mp hpart
      exact isMarked_of_isVoid (whole.2 p hp) false

/-- Of a path that ends in a name the directory has the parts before it, up to the last that names
something. -/
theorem exists_parent? {front : List (String × Bool)} {last : String}
    (body : bodyParts path = front ++ [(last, true)]) : ∃ kept voids, front = kept ++ voids ∧
      (∀ part ∈ voids, part.2 = false) ∧
        parent? path = some (root path ++ ofParts (kept.map (·.1))) := by
  refine ⟨(front.reverse.dropWhile fun part => !part.2).reverse,
    (front.reverse.takeWhile fun part => !part.2).reverse, ?_, ?_, ?_⟩
  · rw [← List.reverse_append, List.takeWhile_append_dropWhile, List.reverse_reverse]
  · intro part hpart
    simpa using List.mem_takeWhile_imp (List.mem_reverse.mp hpart)
  · have back : (bodyParts path).reverse = (last, true) :: front.reverse := by
      rw [body, List.reverse_append]
      rfl
    rw [parent?, back]
    rfl

theorem parts_ne_nil (path : String) : Text.parts '/' path ≠ [] :=
  List.map_eq_nil_iff.not.mpr (List.splitOn_ne_nil '/' path.toList)

theorem parts_join (base : String) {path : String} (relative : isAbsolute path = false) :
    Text.parts '/' path <:+ Text.parts '/' (join base path) := by
  rw [join, if_neg (by simp [relative])]
  by_cases empty : base = ""
  · simp [empty]
  · by_cases slash : base.toList.getLast? = some '/'
    · obtain ⟨front, rfl⟩ := exists_of_endsWithSlash slash
      rw [if_pos (by simp), parts_append]
      exact List.suffix_append _ _
    · rw [if_neg (by simp [empty, slash]), parts_append]
      exact List.suffix_append _ _

/-- The parts below the root are the last parts of the path. -/
theorem bodyParts_suffix (path : String) :
    (bodyParts path).map (·.1) <:+ Text.parts '/' path ∧ bodyParts path ≠ [] := by
  rw [bodyParts]
  cases found : Text.dropLeading? "/" path with
  | some body =>
    have below : Text.parts '/' path = Text.parts '/' "" ++ Text.parts '/' body := by
      rw [Text.dropLeading?_eq_some.mp found, ← parts_append, String.empty_append]
    have kept : ((Text.parts '/' body).map fun part => (part, !isVoid false part)).map (·.1) =
        Text.parts '/' body := by simp [Function.comp_def]
    refine ⟨?_, List.map_eq_nil_iff.not.mpr (parts_ne_nil body)⟩
    rw [kept, below]
    exact List.suffix_append _ _
  | none =>
    obtain ⟨first, rest, parts⟩ := List.exists_cons_of_ne_nil (parts_ne_nil path)
    rw [parts]
    refine ⟨?_, List.cons_ne_nil _ _⟩
    simp [namedParts, Function.comp_def]

/-- A path whose last part is a name has that name at the end of its marked parts. -/
theorem exists_bodyParts {init : List String} {last : String}
    (parts : Text.parts '/' path = init ++ [last]) (named : IsPart last) :
    ∃ front, bodyParts path = front ++ [(last, true)] := by
  obtain ⟨⟨before, whole⟩, filled⟩ := bodyParts_suffix path
  obtain ⟨front, ⟨part, mark⟩, body⟩ := (List.eq_nil_or_concat' _).resolve_left filled
  rw [body, List.map_append, ← List.append_assoc, parts] at whole
  obtain ⟨-, same⟩ := List.append_inj' whole rfl
  obtain rfl : part = last := List.singleton_inj.mp same
  have marked : IsMarked (part, mark) := isMarked_of_mem_bodyParts _ (body ▸ List.mem_concat_self)
  obtain rfl : mark = true := marked.named named
  exact ⟨front, body⟩

end GraphqlCrud.Path

namespace GraphqlCrud.Disk

open GraphqlCrud.Path

/-- Whether a part is a name on the way. -/
def isName (part : String) : Bool := part != "" && part != "."

theorem names_root_append (path : String) {parts : List String}
    (whole : ∀ p ∈ parts, '/' ∉ p.toList) :
    names (root path ++ ofParts parts) = parts.filter isName := by
  have relative : names (ofParts parts) = parts.filter isName := by
    by_cases none : parts = []
    · rw [none]
      exact names_empty
    · rw [names, parts_ofParts_of_whole whole none]
      rfl
  rw [root]
  split
  · have below := names_append "" (ofParts parts)
    rwa [String.empty_append, names_empty, List.nil_append, relative] at below
  · rw [String.empty_append, relative]

/-- The directory of a path, from which the path leads on by its last name. -/
structure Houses (directory path last : String) : Prop where
  parent : parent? path = some directory
  absolute : isAbsolute directory = isAbsolute path
  leads : names path = names directory ++ [last]
  begins : ∃ rest, path = directory ++ rest

theorem exists_houses {path last : String} {init : List String}
    (parts : Text.parts '/' path = init ++ [last]) (named : IsPart last) :
    ∃ directory, Houses directory path last := by
  obtain ⟨front, body⟩ := exists_bodyParts parts named
  obtain ⟨kept, voids, rfl, unnamed, parent⟩ := exists_parent? body
  have marked : ∀ part ∈ bodyParts path, IsMarked part := isMarked_of_mem_bodyParts
  rw [body, List.forall_mem_append, List.forall_mem_append] at marked
  obtain ⟨⟨keptMarked, voidsMarked⟩, -⟩ := marked
  have begins : ∃ rest, path = root path ++ ofParts (kept.map (·.1)) ++ rest := by
    obtain ⟨rest, whole⟩ := ofParts_append (kept.map (·.1)) ((voids ++ [(last, true)]).map (·.1))
    have text := eq_root_append_body path
    rw [body, List.append_assoc, List.map_append, whole] at text
    exact ⟨rest, by rw [String.append_assoc, ← text]⟩
  refine ⟨_, parent, ?_, ?_, begins⟩
  · cases absolute : isAbsolute path with
    | true =>
      rw [root, if_pos absolute]
      exact Text.begins_append "/" _
    | false =>
      obtain ⟨rest, whole⟩ := begins
      rw [root, absolute, if_neg Bool.false_ne_true, String.empty_append] at whole ⊢
      by_cases empty : ofParts (kept.map (·.1)) = ""
      · rw [empty]
        decide
      · rw [← isAbsolute_append_left empty rest, ← whole, absolute]
  · have none : (voids.map (·.1)).filter isName = [] := by
      rw [List.filter_eq_nil_iff]
      intro p hp
      obtain ⟨part, hpart, rfl⟩ := List.mem_map.mp hp
      rcases (voidsMarked part hpart).void (unnamed part hpart) with empty | dot
      · simp [isName, empty]
      · simp [isName, dot]
    have one : [last].filter isName = [last] := by
      simp [isName, named.nonempty, named.notDot]
    have wholeKept : ∀ p ∈ kept.map (·.1), '/' ∉ p.toList := by
      intro p hp
      obtain ⟨part, hpart, rfl⟩ := List.mem_map.mp hp
      exact (keptMarked part hpart).whole
    have whole : ∀ p ∈ (bodyParts path).map (·.1), '/' ∉ p.toList := by
      intro p hp
      obtain ⟨part, hpart, rfl⟩ := List.mem_map.mp hp
      exact (isMarked_of_mem_bodyParts part hpart).whole
    have all := names_root_append path whole
    rw [← eq_root_append_body path, body, List.map_append, List.map_append, List.filter_append,
      List.filter_append, none, List.append_nil, List.map_singleton, one] at all
    rw [names_root_append path wholeKept, all]

end GraphqlCrud.Disk
