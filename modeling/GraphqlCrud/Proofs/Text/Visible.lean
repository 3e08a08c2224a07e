import Mathlib.Data.List.Basic
import Mathlib.Data.List.TakeWhile
import GraphqlCrud.Proofs.Text.Lines
import GraphqlCrud.Text.Basic
import GraphqlCrud.Text.Blank
/-!
What can be seen of a text: its characters but for white space. Trimming a text and taking it apart
into lines leave that as it is.
-/
namespace GraphqlCrud.Text

/-- The characters that are not white space. -/
def visible (s : String) : List Char := s.toList.filter fun c => !isBlank c

@[simp] theorem visible_append (s t : String) : visible (s ++ t) = visible s ++ visible t := by
  rw [visible, String.toList_append, List.filter_append]
  rfl

/-- White space at the end does not count. -/
theorem visible_trimEnd (s : String) : visible (trimEnd s) = visible s := by
  have dropped : (s.toList.reverse.takeWhile isBlank).filter (fun c => !isBlank c) = [] := by
    rw [List.filter_eq_nil_iff]
    intro c member
    simp [List.mem_takeWhile_imp member]
  have kept : (s.toList.reverse.dropWhile isBlank).filter (fun c => !isBlank c) =
      s.toList.reverse.filter fun c => !isBlank c := by
    conv => rhs; rw [← List.takeWhile_append_dropWhile (p := isBlank) (l := s.toList.reverse)]
    rw [List.filter_append, dropped, List.nil_append]
  rw [visible, trimEnd, String.toList_ofList, List.filter_reverse, kept, List.filter_reverse,
    List.reverse_reverse, visible]

theorem visible_join (texts : List String) :
    visible (String.join texts) = texts.flatMap visible := by
  induction texts with
  | nil => rfl
  | cons text texts ih => rw [String.join_cons, visible_append, ih, List.flatMap_cons]

theorem visible_ended (ls : List String) : visible (ended ls) = ls.flatMap visible := by
  rw [ended, visible_join, List.flatMap_map]
  refine List.flatMap_congr fun line _ => ?_
  rw [visible_append]
  exact List.append_nil _

theorem visible_intercalate (sep : String) (texts : List String) :
    visible (sep.intercalate texts) = (visible sep).intercalate (texts.map visible) := by
  induction texts with
  | nil => rfl
  | cons text texts ih =>
    cases texts with
    | nil => simp
    | cons next rest =>
      rw [String.intercalate_cons_cons, visible_append, visible_append, ih]
      simp [List.intercalate, List.append_assoc]

theorem visible_dropCarriageReturn (line : String) :
    visible (String.ofList (dropCarriageReturn line.toList)) = visible line := by
  rw [visible, String.toList_ofList, dropCarriageReturn]
  split
  · next ending =>
    obtain ⟨init, whole⟩ := List.getLast?_eq_some_iff.mp ending
    have blank : isBlank '\r' = true := by decide
    rw [visible, whole, List.dropLast_concat, List.filter_append]
    simp [blank]
  · rfl

/-- The lines of a text show what the text shows. -/
theorem visible_lines (s : String) : (lines s).flatMap visible = visible s := by
  obtain ⟨ls, last, hls, hlast, rfl⟩ := exists_unbroken s
  have shown : (if last = "" then [] else [last]).flatMap visible = visible last := by
    split
    · next empty =>
      rw [empty]
      rfl
    · simp
  rw [lines_intercalate_unbroken hls hlast, List.flatMap_append, List.flatMap_map, shown,
    intercalate_concat, visible_append]
  apply congrArg (· ++ visible last)
  rw [← ended, visible_ended]
  exact List.flatMap_congr fun line _ => visible_dropCarriageReturn line

end GraphqlCrud.Text
