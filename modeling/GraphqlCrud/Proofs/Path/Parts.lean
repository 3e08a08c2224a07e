import GraphqlCrud.Path
import GraphqlCrud.Proofs.Text.Search
import GraphqlCrud.Proofs.Text.Words
/-!
Relative paths put together from parts that name something.
-/
namespace GraphqlCrud.Path

/-- The text can stand between the slashes of a path, and names something there. -/
structure IsPart (s : String) : Prop where
  nonempty : s ≠ ""
  notDot : s ≠ "."
  whole : '/' ∉ s.toList

def ofParts (parts : List String) : String := "/".intercalate parts

/-- A word can name a directory, and so can a word with an ending. -/
theorem IsPart.of_word {s ending : String} (h : Text.IsWord s) (plain : '/' ∉ ending.toList) :
    IsPart (s ++ ending) := by
  obtain ⟨c, rest, hs⟩ := Text.exists_toList_eq_cons h.nonempty
  have first : c ∈ s.toList := by
    rw [hs]
    exact List.mem_cons_self
  constructor
  · intro empty
    have nothing := congrArg String.toList empty
    rw [String.toList_append, hs] at nothing
    cases nothing
  · intro dot
    have single := congrArg (fun t : String => t.toList.head?) dot
    simp only [String.toList_append, hs] at single
    exact h.ne_of_mem first (by decide) (by decide) (Option.some.inj single)
  · rw [String.toList_append, List.mem_append, not_or]
    exact ⟨h.notMem (by decide) (by decide), plain⟩

theorem IsPart.isVoid_eq_false {s : String} (h : IsPart s) (beginsPath : Bool) :
    isVoid beginsPath s = false := by
  simp [isVoid, h.nonempty, h.notDot]

variable {parts : List String}

theorem parts_ofParts_of_whole (whole : ∀ p ∈ parts, '/' ∉ p.toList) (nonempty : parts ≠ []) :
    Text.parts '/' (ofParts parts) = parts := by
  have whole : ∀ l ∈ parts.map String.toList, '/' ∉ l := by
    intro l hl
    obtain ⟨p, hp, rfl⟩ := List.mem_map.mp hl
    exact whole p hp
  have separator : "/".toList = ['/'] := rfl
  rw [Text.parts, ofParts, String.toList_intercalate, separator,
    List.splitOn_intercalate '/' whole (by simpa using nonempty), List.map_map]
  have kept : String.ofList ∘ String.toList = id := funext fun _ => String.ofList_toList
  rw [kept, List.map_id]

theorem parts_ofParts (h : ∀ p ∈ parts, IsPart p) (nonempty : parts ≠ []) :
    Text.parts '/' (ofParts parts) = parts :=
  parts_ofParts_of_whole (fun p hp => (h p hp).whole) nonempty

theorem parts_append (front rest : String) :
    Text.parts '/' (front ++ "/" ++ rest) = Text.parts '/' front ++ Text.parts '/' rest := by
  have slash : "/".toList = ['/'] := rfl
  simp only [Text.parts, String.toList_append, slash, List.append_assoc, List.singleton_append,
    List.splitOn_append_cons_self, List.map_append]

theorem ofParts_ne_empty (h : ∀ p ∈ parts, IsPart p) (nonempty : parts ≠ []) :
    ofParts parts ≠ "" := by
  intro empty
  have parted := parts_ofParts h nonempty
  rw [empty] at parted
  have blank : "" ∈ parts := by
    rw [← parted]
    decide
  exact (h "" blank).nonempty rfl

theorem ofParts_inj {others : List String} (h : ∀ p ∈ parts, IsPart p)
    (h' : ∀ p ∈ others, IsPart p) (nonempty : parts ≠ []) (nonempty' : others ≠ [])
    (same : ofParts parts = ofParts others) : parts = others := by
  rw [← parts_ofParts h nonempty, same, parts_ofParts h' nonempty']

theorem isAbsolute_append {s : String} (h : IsPart s) (rest : String) :
    isAbsolute (s ++ rest) = false := by
  rw [Bool.eq_false_iff]
  intro absolute
  obtain ⟨tail, htail⟩ := Text.begins_iff.mp absolute
  have first := congrArg (fun t : String => t.toList.head?) htail
  obtain ⟨c, cs, hs⟩ := Text.exists_toList_eq_cons h.nonempty
  simp only [String.toList_append, hs] at first
  apply h.whole
  rw [hs]
  simpa using .inl (Option.some.inj first).symm

theorem isAbsolute_ofParts (h : ∀ p ∈ parts, IsPart p) : isAbsolute (ofParts parts) = false := by
  cases parts with
  | nil => rfl
  | cons p rest =>
    have first := h p List.mem_cons_self
    cases rest with
    | nil => simpa [ofParts] using isAbsolute_append first ""
    | cons q rest =>
      rw [ofParts, String.intercalate_cons_cons, String.append_assoc]
      exact isAbsolute_append first _

theorem dropLeading?_ofParts (h : ∀ p ∈ parts, IsPart p) :
    Text.dropLeading? "/" (ofParts parts) = none := by
  have relative := isAbsolute_ofParts h
  cases found : Text.dropLeading? "/" (ofParts parts) with
  | none => rfl
  | some rest =>
    rw [isAbsolute, Text.dropLeading?_eq_some.mp found, Text.begins_append] at relative
    cases relative

theorem components_ofParts (h : ∀ p ∈ parts, IsPart p) (nonempty : parts ≠ []) :
    components (ofParts parts) = parts := by
  obtain ⟨first, rest, rfl⟩ := List.exists_cons_of_ne_nil nonempty
  have later : rest.map (fun q => (q, !isVoid false q)) = rest.map fun q => (q, true) := by
    apply List.map_congr_left
    intro q hq
    rw [(h q (List.mem_cons_of_mem first hq)).isVoid_eq_false, Bool.not_false]
  have named : bodyParts (ofParts (first :: rest)) =
      (first, true) :: rest.map fun q => (q, true) := by
    rw [bodyParts, dropLeading?_ofParts h, parts_ofParts h nonempty, ← later]
    simp [namedParts, (h first List.mem_cons_self).isVoid_eq_false]
  rw [components, isAbsolute_ofParts h, named]
  simp [List.filter_map, Function.comp_def]

theorem normal_ofParts (h : ∀ p ∈ parts, IsPart p) (nonempty : parts ≠ []) :
    normal (ofParts parts) = ofParts parts := by
  rw [normal, components_ofParts h nonempty, ofParts]

theorem normal_single {name : String} (h : IsPart name) : normal name = ofParts [name] := by
  have single : ∀ p ∈ [name], IsPart p := List.forall_mem_singleton.mpr h
  have whole : ofParts [name] = name := String.intercalate_singleton
  rw [← normal_ofParts single (by simp), whole]

theorem getLast?_ofParts (h : ∀ p ∈ parts, IsPart p) :
    (ofParts parts).toList.getLast? ≠ some '/' := by
  -- The last part decides, and it is a part of the shorter path as soon as there are two.
  induction parts with
  | nil => simp [ofParts]
  | cons p rest ih =>
    have first := h p List.mem_cons_self
    cases rest with
    | nil =>
      intro last
      rw [ofParts, String.intercalate_singleton] at last
      exact first.whole (List.mem_of_getLast? last)
    | cons q rest =>
      have shorter := ih fun r hr => h r (List.mem_cons_of_mem p hr)
      have filled : (ofParts (q :: rest)).toList.getLast?.isSome = true := by
        rw [List.getLast?_isSome]
        intro empty
        exact ofParts_ne_empty (fun r hr => h r (List.mem_cons_of_mem p hr)) (by simp)
          (String.toList_injective empty)
      have below : ofParts (p :: q :: rest) = p ++ "/" ++ ofParts (q :: rest) :=
        String.intercalate_cons_cons
      rw [below, String.toList_append, List.getLast?_append, Option.or_of_isSome filled]
      exact shorter

@[simp] theorem join_empty (path : String) : join "" path = path := by
  simp [join]

theorem join_ofParts (h : ∀ p ∈ parts, IsPart p) (nonempty : parts ≠ []) {last : String}
    (hlast : IsPart last) : join (ofParts parts) last = ofParts (parts ++ [last]) := by
  have relative : isAbsolute last = false := by
    simpa only [String.append_empty] using isAbsolute_append hlast ""
  have filled := ofParts_ne_empty h nonempty
  have appended : ofParts (parts ++ [last]) = ofParts parts ++ "/" ++ last := by
    rw [ofParts, String.intercalate_append_of_ne_nil nonempty (by simp),
      String.intercalate_singleton, ofParts]
  simp [join, relative, filled, getLast?_ofParts h, appended]

theorem normal_join_two {a b : String} (ha : IsPart a) (hb : IsPart b) :
    normal (join (join "" a) b) = ofParts [a, b] := by
  have single : ∀ p ∈ [a], IsPart p := List.forall_mem_singleton.mpr ha
  have both : ∀ p ∈ [a, b], IsPart p :=
    List.forall_mem_cons.mpr ⟨ha, List.forall_mem_singleton.mpr hb⟩
  have start : join "" a = ofParts [a] := (join_empty a).trans String.intercalate_singleton.symm
  rw [start, join_ofParts single (by simp) hb]
  exact normal_ofParts both (by simp)

theorem normal_join_three {a b c : String} (ha : IsPart a) (hb : IsPart b) (hc : IsPart c) :
    normal (join (join (join "" a) b) c) = ofParts [a, b, c] := by
  have single : ∀ p ∈ [a], IsPart p := List.forall_mem_singleton.mpr ha
  have both : ∀ p ∈ [a, b], IsPart p :=
    List.forall_mem_cons.mpr ⟨ha, List.forall_mem_singleton.mpr hb⟩
  have all : ∀ p ∈ [a, b, c], IsPart p :=
    List.forall_mem_cons.mpr ⟨ha, List.forall_mem_cons.mpr ⟨hb, List.forall_mem_singleton.mpr hc⟩⟩
  have start : join "" a = ofParts [a] := (join_empty a).trans String.intercalate_singleton.symm
  rw [start, join_ofParts single (by simp) hb, List.singleton_append,
    join_ofParts both (by simp) hc]
  exact normal_ofParts all (by simp)

end GraphqlCrud.Path
