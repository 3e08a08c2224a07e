import Mathlib.Data.List.Chain
import GraphqlCrud.Proofs.Text.LineBeginnings
import GraphqlCrud.Proofs.Text.Returns
import GraphqlCrud.Proofs.Text.Visible
/-!
Texts below each other, line by line. Where neither the first nor the last line of any text is empty,
an empty line between two texts stays the only one there.
-/
namespace GraphqlCrud.Text

/-- There are lines, and the first of them and the last have a property. -/
structure HasEnds (P : String → Prop) (ls : List String) : Prop where
  first : ∃ l, ls.head? = some l ∧ P l
  last : ∃ l, ls.getLast? = some l ∧ P l

/-- Neither the first line nor the last is empty. -/
abbrev IsFramed (ls : List String) : Prop := HasEnds (· ≠ "") ls

section

variable {P Q : String → Prop} {ls ms : List String}

theorem HasEnds.map (h : HasEnds P ls) {f : String → String} (kept : ∀ l, P l → Q (f l)) :
    HasEnds Q (ls.map f) := by
  obtain ⟨⟨first, head, hfirst⟩, ⟨last, ending, hlast⟩⟩ := h
  refine ⟨⟨f first, ?_, kept first hfirst⟩, ⟨f last, ?_, kept last hlast⟩⟩
  · rw [List.head?_map, head]
    rfl
  · rw [List.getLast?_map, ending]
    rfl

theorem HasEnds.mono (h : HasEnds P ls) (weaker : ∀ l, P l → Q l) : HasEnds Q ls := by
  simpa using h.map (f := id) weaker

/-- Whatever there is in between. -/
theorem HasEnds.append (h : HasEnds P ls) (between : List String) (h' : HasEnds P ms) :
    HasEnds P (ls ++ between ++ ms) := by
  obtain ⟨first, head, hfirst⟩ := h.first
  obtain ⟨last, ending, hlast⟩ := h'.last
  refine ⟨⟨first, ?_, hfirst⟩, ⟨last, ?_, hlast⟩⟩
  · rw [List.append_assoc, List.head?_append, head]
    rfl
  · rw [List.getLast?_append, ending]
    rfl

theorem HasEnds.flatMap {α : Type} {items : List α} {linesOf : α → List String}
    (h : ∀ a ∈ items, HasEnds P (linesOf a)) (filled : items ≠ []) :
    HasEnds P (items.flatMap linesOf) := by
  induction items with
  | nil => exact absurd rfl filled
  | cons a items ih =>
    obtain ⟨first, others⟩ := List.forall_mem_cons.mp h
    rw [List.flatMap_cons]
    cases items with
    | nil => simpa using first
    | cons b items =>
      have rest := ih others (List.cons_ne_nil b items)
      simpa using first.append [] rest

theorem IsFramed.head_ne (h : IsFramed ls) : ls.head? ≠ some "" := by
  obtain ⟨l, head, filled⟩ := h.first
  rw [head]
  exact fun same => filled (Option.some.inj same)

theorem IsFramed.getLast_ne (h : IsFramed ls) : ls.getLast? ≠ some "" := by
  obtain ⟨l, last, filled⟩ := h.last
  rw [last]
  exact fun same => filled (Option.some.inj same)

end

/-- Of two lines one at least holds something. -/
def NotBothEmpty (l m : String) : Prop := l ≠ "" ∨ m ≠ ""

/-- Between framed groups of lines, single empty lines are all that separates them. -/
theorem isFramed_intercalate {groups : List (List String)} (h : ∀ g ∈ groups, IsFramed g)
    (filled : groups ≠ []) : IsFramed ([""].intercalate groups) := by
  induction groups with
  | nil => exact absurd rfl filled
  | cons g groups ih =>
    obtain ⟨first, others⟩ := List.forall_mem_cons.mp h
    cases groups with
    | nil => simpa using first
    | cons next groups =>
      rw [List.intercalate_cons_cons]
      exact first.append [""] (ih others (List.cons_ne_nil next groups))

/-- Two empty lines are next to each other only within a group. -/
theorem isChain_intercalate {groups : List (List String)} (h : ∀ g ∈ groups, IsFramed g) :
    ([""].intercalate groups).IsChain NotBothEmpty ↔ ∀ g ∈ groups, g.IsChain NotBothEmpty := by
  induction groups with
  | nil => simp
  | cons g groups ih =>
    obtain ⟨first, others⟩ := List.forall_mem_cons.mp h
    cases groups with
    | nil => simp
    | cons next groups =>
      have before : ∀ l ∈ g.getLast?, ∀ m ∈ [""].head?, NotBothEmpty l m := by
        intro l hl m _
        exact .inl fun empty => first.getLast_ne (empty ▸ hl)
      have after : ∀ l ∈ (g ++ [""]).getLast?, ∀ m ∈ ([""].intercalate (next :: groups)).head?,
          NotBothEmpty l m := by
        intro l _ m hm
        have framed := isFramed_intercalate others (List.cons_ne_nil next groups)
        exact .inr fun empty => framed.head_ne (empty ▸ hm)
      rw [List.intercalate_cons_cons, List.isChain_append, List.isChain_append, ih others,
        List.forall_mem_cons (a := g)]
      constructor
      · rintro ⟨⟨chain, -, -⟩, chains, -⟩
        exact ⟨chain, chains⟩
      · rintro ⟨chain, chains⟩
        exact ⟨⟨chain, .singleton "", before⟩, chains, after⟩

/-! The lines of texts -/

/-- The line without the carriage return of its ending. -/
def withoutReturn (l : String) : String := String.ofList (dropCarriageReturn l.toList)

theorem lines_ended_unbroken {ls : List String} (h : ∀ l ∈ ls, '\n' ∉ l.toList) :
    lines (ended ls) = ls.map withoutReturn := by
  rw [ended_eq_intercalate, lines_intercalate_unbroken h (by decide), if_pos rfl, List.append_nil]
  rfl

theorem exists_ended {s : String} (h : EndsLine s) :
    ∃ ls, (∀ l ∈ ls, '\n' ∉ l.toList) ∧ s = ended ls := by
  rcases h with rfl | ⟨front, rfl⟩
  · exact ⟨[], nofun, rfl⟩
  · obtain ⟨ls, last, hls, hlast, rfl⟩ := exists_unbroken front
    refine ⟨ls ++ [last], ?_, ended_append_singleton.symm⟩
    exact List.forall_mem_append.mpr ⟨hls, List.forall_mem_singleton.mpr hlast⟩

/-- What begins on a new line has lines of its own. -/
theorem lines_append {s : String} (h : EndsLine s) (t : String) :
    lines (s ++ t) = lines s ++ lines t := by
  obtain ⟨ls, hls, rfl⟩ := exists_ended h
  obtain ⟨ms, last, hms, hlast, rfl⟩ := exists_unbroken t
  have whole : ended ls ++ "\n".intercalate (ms ++ [last]) =
      "\n".intercalate ((ls ++ ms) ++ [last]) := by
    rw [intercalate_concat, intercalate_concat, ← ended, ← ended, ended_append, String.append_assoc]
  have unbroken := List.forall_mem_append.mpr ⟨hls, hms⟩
  rw [whole, lines_intercalate_unbroken unbroken hlast, lines_ended_unbroken hls,
    lines_intercalate_unbroken hms hlast, List.map_append, List.append_assoc]
  rfl

theorem lines_intercalate_ended {texts : List String} (h : ∀ t ∈ texts, EndsLine t) :
    lines ("\n".intercalate texts) = [""].intercalate (texts.map lines) := by
  have feed : lines "\n" = [""] := by decide
  induction texts with
  | nil => rfl
  | cons t texts ih =>
    obtain ⟨first, others⟩ := List.forall_mem_cons.mp h
    cases texts with
    | nil => simp
    | cons next texts =>
      have begun : EndsLine (t ++ "\n") := .inr ⟨t, rfl⟩
      rw [String.intercalate_cons_cons, lines_append begun, lines_append first, feed, ih others,
        List.map_cons, List.map_cons, List.map_cons, List.intercalate_cons_cons]

/-! Texts that begin and end with something visible -/

def IsFilled (l : String) : Prop := visible l ≠ []

theorem IsFilled.ne_empty {l : String} (h : IsFilled l) : l ≠ "" := by
  rintro rfl
  exact h rfl

theorem IsFilled.withoutReturn {l : String} (h : IsFilled l) : IsFilled (withoutReturn l) := by
  rwa [IsFilled, Text.withoutReturn, visible_dropCarriageReturn]

theorem IsFilled.trimEnd {l : String} (h : IsFilled l) : IsFilled (trimEnd l) := by
  rwa [IsFilled, visible_trimEnd]

theorem isFilled_of_mem {l : String} {c : Char} (member : c ∈ l.toList) (h : isBlank c = false) :
    IsFilled l :=
  List.ne_nil_of_mem (List.mem_filter.mpr ⟨member, by simp [h]⟩)

/-- The first character is not white space. -/
def StartsVisible (s : String) : Prop := ∃ c rest, s.toList = c :: rest ∧ isBlank c = false

theorem StartsVisible.append {s : String} (h : StartsVisible s) (t : String) :
    StartsVisible (s ++ t) := by
  obtain ⟨c, rest, whole, visible⟩ := h
  exact ⟨c, rest ++ t.toList, by rw [String.toList_append, whole]; rfl, visible⟩

theorem startsVisible_trim {s : String} (h : trim s ≠ "") : StartsVisible (trim s) := by
  cases kept : s.toList.dropWhile isBlank with
  | nil =>
    rw [trim, kept] at h
    exact absurd rfl h
  | cons c rest =>
    have visible : isBlank c = false := by
      have first := List.head?_dropWhile_not isBlank s.toList
      rw [kept] at first
      exact first
    have trimmed : (trim s).toList = (c :: rest).rdropWhile isBlank := by
      rw [trim, kept, trimEnd, String.toList_ofList, String.toList_ofList]
      rfl
    obtain ⟨more, whole⟩ := List.rdropWhile_prefix isBlank (l := c :: rest)
    obtain ⟨d, others, chars⟩ := List.exists_cons_of_ne_nil
      (l := (c :: rest).rdropWhile isBlank) (by
        rw [← trimmed]
        exact String.toList_eq_nil_iff.not.mpr h)
    rw [chars] at whole
    obtain rfl : d = c := (List.cons.inj whole).1
    exact ⟨d, others, trimmed.trans chars, visible⟩

theorem IsSolid.isFilled {s : String} (h : IsSolid s) : IsFilled s := by
  obtain ⟨init, c, whole, visible⟩ := h
  exact isFilled_of_mem (whole ▸ List.mem_append_right init List.mem_cons_self) visible

theorem IsSolid.withoutReturn_eq {s : String} (h : IsSolid s) : withoutReturn s = s := by
  obtain ⟨init, c, whole, visible⟩ := h
  have other : s.toList.getLast? ≠ some '\r' := by
    rw [whole, List.getLast?_concat]
    rintro same
    obtain rfl := Option.some.inj same
    cases visible
  rw [withoutReturn, dropCarriageReturn, if_neg other, String.ofList_toList]

/-- The last line is no other than what stands behind the last line feed. -/
theorem IsSolid.lines_eq_map {front : List String} {last : String}
    (h : IsSolid ("\n".intercalate (front ++ [last]))) (hfront : ∀ l ∈ front, '\n' ∉ l.toList)
    (hlast : '\n' ∉ last.toList) :
    lines ("\n".intercalate (front ++ [last])) = (front ++ [last]).map withoutReturn := by
  have ending := h.of_intercalate
  rw [lines_intercalate_unbroken hfront hlast, if_neg ending.ne_empty, List.map_append,
    List.map_singleton, ending.withoutReturn_eq]
  rfl

theorem IsSolid.lines_append_feed {s : String} (h : IsSolid s) : lines (s ++ "\n") = lines s := by
  obtain ⟨front, last, hfront, hlast, rfl⟩ := exists_unbroken s
  have unbroken := List.forall_mem_append.mpr ⟨hfront, List.forall_mem_singleton.mpr hlast⟩
  rw [← ended_append_singleton, lines_ended_unbroken unbroken, h.lines_eq_map hfront hlast]

/-- A text that begins and ends with something visible has visible lines at both ends. -/
theorem hasEnds_lines {s : String} (start : StartsVisible s) (solid : IsSolid s) :
    HasEnds IsFilled (lines s) := by
  obtain ⟨front, last, hfront, hlast, rfl⟩ := exists_unbroken s
  have ends : HasEnds IsFilled (front ++ [last]) := by
    refine ⟨?_, ⟨last, List.getLast?_concat, solid.of_intercalate.isFilled⟩⟩
    cases front with
    | nil => exact ⟨last, rfl, solid.of_intercalate.isFilled⟩
    | cons l front =>
      refine ⟨l, rfl, ?_⟩
      obtain ⟨c, rest, whole, visible⟩ := start
      rw [List.cons_append, String.intercalate_cons_of_ne_nil (by simp), String.append_assoc,
        String.toList_append] at whole
      -- Were it empty, a line feed would be the first character of the text.
      cases first : l.toList with
      | nil =>
        rw [first, String.toList_append] at whole
        obtain rfl : '\n' = c := (List.cons.inj whole).1
        cases visible
      | cons d others =>
        rw [first] at whole
        obtain rfl : d = c := (List.cons.inj whole).1
        exact isFilled_of_mem (first ▸ List.mem_cons_self) visible
  rw [solid.lines_eq_map hfront hlast]
  exact ends.map fun l h => h.withoutReturn

end GraphqlCrud.Text
