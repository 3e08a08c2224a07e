import Mathlib.Data.List.Basic
import Mathlib.Data.List.DropRight
import Mathlib.Data.List.TakeWhile
import GraphqlCrud.Text.Basic
import GraphqlCrud.Text.Blank
import GraphqlCrud.Proofs.Text.Lines
/-!
Texts that end in something visible, which trimming at their end leaves as they are.
-/
namespace GraphqlCrud.Text

theorem ne_feed_of_visible {c : Char} (h : isBlank c = false) : c ≠ '\n' := by
  rintro rfl
  cases h

/-- The last character is not white space. -/
def IsSolid (s : String) : Prop := ∃ init c, s.toList = init ++ [c] ∧ isBlank c = false

theorem IsSolid.append {s : String} (h : IsSolid s) (before : String) : IsSolid (before ++ s) := by
  obtain ⟨init, c, hs, solid⟩ := h
  refine ⟨before.toList ++ init, c, ?_, solid⟩
  rw [String.toList_append, hs, List.append_assoc]

theorem IsSolid.ne_empty {s : String} (h : IsSolid s) : s ≠ "" := by
  rintro rfl
  obtain ⟨init, c, hs, -⟩ := h
  exact List.append_ne_nil_of_right_ne_nil init (List.cons_ne_nil c []) hs.symm

theorem IsSolid.trimEnd_eq {s : String} (h : IsSolid s) : trimEnd s = s := by
  obtain ⟨init, c, hs, solid⟩ := h
  apply String.toList_injective
  simp [trimEnd, hs, solid]

theorem isSolid_trimEnd {s : String} (h : trimEnd s ≠ "") : IsSolid (trimEnd s) := by
  rw [trimEnd] at h ⊢
  cases kept : s.toList.reverse.dropWhile isBlank with
  | nil =>
    rw [kept] at h
    exact absurd rfl h
  | cons c rest =>
    have visible : isBlank c = false := by
      have first := List.head?_dropWhile_not isBlank s.toList.reverse
      rw [kept] at first
      exact first
    refine ⟨rest.reverse, c, ?_, visible⟩
    rw [String.toList_ofList, List.reverse_cons]

theorem mem_trimEnd {s : String} {c : Char} (h : c ∈ (trimEnd s).toList) : c ∈ s.toList := by
  rw [trimEnd, String.toList_ofList, List.mem_reverse] at h
  exact List.mem_reverse.mp ((List.dropWhile_sublist isBlank).subset h)

theorem mem_trim {s : String} {c : Char} (h : c ∈ (trim s).toList) : c ∈ s.toList := by
  have inner := mem_trimEnd h
  rw [String.toList_ofList] at inner
  exact (List.dropWhile_sublist isBlank).subset inner

theorem exists_trim (s : String) : ∃ before after, s.toList = before ++ (trim s).toList ++ after ∧
    (∀ c ∈ before, isBlank c = true) ∧ ∀ c ∈ after, isBlank c = true := by
  refine ⟨s.toList.takeWhile isBlank,
    ((s.toList.dropWhile isBlank).reverse.takeWhile isBlank).reverse, ?_, ?_, ?_⟩
  · rw [trim, trimEnd, String.toList_ofList, String.toList_ofList, List.append_assoc,
      ← List.reverse_append, List.takeWhile_append_dropWhile, List.reverse_reverse,
      List.takeWhile_append_dropWhile]
  · exact fun _ member => List.mem_takeWhile_imp member
  · intro c member
    exact List.mem_takeWhile_imp (List.mem_reverse.mp member)

theorem trim_trim (s : String) : trim (trim s) = trim s := by
  obtain ⟨kept, whole⟩ : ∃ kept, kept = s.toList.dropWhile isBlank := ⟨_, rfl⟩
  have once : (trim s).toList = kept.rdropWhile isBlank := by
    rw [trim, trimEnd, String.toList_ofList, String.toList_ofList, ← whole]
    rfl
  have first : (kept.rdropWhile isBlank).dropWhile isBlank = kept.rdropWhile isBlank := by
    cases left : kept.rdropWhile isBlank with
    | nil => rfl
    | cons c rest =>
      obtain ⟨more, same⟩ := List.rdropWhile_prefix isBlank (l := kept)
      have visible := List.head?_dropWhile_not isBlank s.toList
      rw [← whole, ← same, left] at visible
      exact List.dropWhile_cons_of_neg (by rw [show isBlank c = false from visible]; simp)
  apply String.toList_injective
  rw [trim, trimEnd, String.toList_ofList, String.toList_ofList, once, first]
  exact List.rdropWhile_idempotent isBlank kept

/-- Trimming leaves nothing of a text just when all of it is white space. -/
theorem allBlank_iff_trim_eq {s : String} : allBlank s = true ↔ trim s = "" := by
  have trim_eq : trim s = "" ↔ ∀ c ∈ s.toList.dropWhile isBlank, isBlank c = true := by
    rw [trim, trimEnd, String.toList_ofList, String.ofList_eq_empty_iff, List.reverse_eq_nil_iff,
      List.dropWhile_eq_nil_iff]
    simp only [List.mem_reverse]
  rw [trim_eq, allBlank, List.all_eq_true]
  constructor
  · intro blank c mem
    exact blank c ((List.dropWhile_sublist isBlank).subset mem)
  · intro blank
    refine List.dropWhile_eq_nil_iff.mp ?_
    by_contra visible
    have head_blank := blank _ (List.head_mem visible)
    have head_visible := List.head_dropWhile_not isBlank visible
    rw [head_blank] at head_visible
    cases head_visible

/-- Only the line feeds after the last visible character are dropped. -/
theorem IsSolid.dropFinalLineFeeds_eq {s : String} (h : IsSolid s) :
    dropFinalLineFeeds (s ++ "\n") = s := by
  obtain ⟨init, c, hs, solid⟩ := h
  apply String.toList_injective
  simp [dropFinalLineFeeds, hs, ne_feed_of_visible solid]

variable {ls : List String} {last : String}

theorem intercalate_append_singleton (h : ls ≠ []) :
    "\n".intercalate (ls ++ [last]) = "\n".intercalate ls ++ "\n" ++ last := by
  rw [String.intercalate_append_of_ne_nil h (List.cons_ne_nil last []),
    String.intercalate_singleton]

theorem IsSolid.intercalate (h : IsSolid last) : IsSolid ("\n".intercalate (ls ++ [last])) := by
  by_cases empty : ls = []
  · rw [empty, List.nil_append, String.intercalate_singleton]
    exact h
  · rw [intercalate_append_singleton empty]
    exact h.append _

theorem intercalate_append_tail (tail : String) :
    "\n".intercalate (ls ++ [last]) ++ tail = "\n".intercalate (ls ++ [last ++ tail]) := by
  by_cases empty : ls = []
  · simp [empty]
  · rw [intercalate_append_singleton empty, intercalate_append_singleton empty,
      String.append_assoc]

theorem ended_append_singleton :
    ended (ls ++ [last]) = "\n".intercalate (ls ++ [last]) ++ "\n" := by
  rw [ended_eq_intercalate, intercalate_append_singleton (by simp), String.append_empty]

theorem dropFinalLineFeeds_ended (h : IsSolid last) :
    dropFinalLineFeeds (ended (ls ++ [last])) = "\n".intercalate (ls ++ [last]) := by
  rw [ended_append_singleton, h.intercalate.dropFinalLineFeeds_eq]

theorem lines_intercalate_solid (hls : ∀ l ∈ ls, IsLine l) (hlast : IsLine last)
    (solid : IsSolid last) : lines ("\n".intercalate (ls ++ [last])) = ls ++ [last] := by
  rw [lines_intercalate hls hlast.unbroken, if_neg solid.ne_empty]

/-- The part after a character that is not the last ends like the whole. -/
theorem exists_concat_of_append_cons {α : Type} {before after init : List α} {a last : α}
    (h : before ++ a :: after = init ++ [last]) (other : last ≠ a) :
    ∃ kept, after = kept ++ [last] := by
  have ending := congrArg List.getLast? h
  rw [List.getLast?_concat, List.getLast?_append_cons] at ending
  cases after with
  | nil => exact absurd (Option.some.inj ending).symm other
  | cons b after =>
    rw [List.getLast?_cons_cons] at ending
    exact List.getLast?_eq_some_iff.mp ending

theorem IsSolid.of_intercalate (solid : IsSolid ("\n".intercalate (ls ++ [last]))) :
    IsSolid last := by
  by_cases empty : ls = []
  · simpa [empty] using solid
  · obtain ⟨init, c, whole, visible⟩ := solid
    rw [intercalate_append_singleton empty, String.append_assoc, String.toList_append,
      String.toList_append] at whole
    obtain ⟨kept, ending⟩ :=
      exists_concat_of_append_cons whole (ne_feed_of_visible visible)
    exact ⟨kept, c, ending, visible⟩

/-- Pieces that stand below each other are the lines of all pieces below each other. -/
theorem intercalate_map_intercalate {pieces : List (List String)} (h : ∀ p ∈ pieces, p ≠ []) :
    "\n".intercalate (pieces.map "\n".intercalate) = "\n".intercalate pieces.flatten := by
  induction pieces with
  | nil => rfl
  | cons piece rest ih =>
    obtain ⟨filled, others⟩ := List.forall_mem_cons.mp h
    rw [List.map_cons, List.flatten_cons]
    by_cases empty : rest = []
    · simp [empty]
    · have below : rest.flatten ≠ [] := by
        obtain ⟨next, more, rfl⟩ := List.exists_cons_of_ne_nil empty
        rw [List.flatten_cons]
        exact List.append_ne_nil_of_left_ne_nil (others next List.mem_cons_self) _
      rw [String.intercalate_cons_of_ne_nil (by simpa using empty), ih others,
        String.intercalate_append_of_ne_nil filled below]

end GraphqlCrud.Text
