import GraphqlCrud.DocComment
import GraphqlCrud.Proofs.Text.Endings
/-!
The description in a documentation comment.
-/
namespace GraphqlCrud.DocComment

open Text

/-- The text around the markers stands in the comment. -/
theorem split_sublist (s : List Char) : (split s).1.Sublist s := by
  fun_induction split s with
  | case1 => exact .refl _
  | case2 => exact .refl _
  | case3 s before after cut arguments rest closed text more read ih =>
    rw [read] at ih
    rw [eq_append_of_cut? cut, eq_append_of_cut? closed]
    exact (List.sublist_append_left before markerStart).append
      (ih.trans (List.sublist_append_right _ rest))

theorem description_some (text : String) : (parse (some text)).description =
    if trim (String.ofList (split text.toList).1) = "" then none
    else some (trim (String.ofList (split text.toList).1)) := by
  rw [parse]

variable {comment : Option String}

/-- A description ends in something visible. -/
theorem isSolid_description (comment : Option String) :
    ∀ d ∈ (parse comment).description, IsSolid d := by
  intro d hd
  cases comment with
  | none => cases hd
  | some text =>
    rw [description_some] at hd
    split at hd
    · cases hd
    · next filled =>
      obtain rfl := Option.some.inj hd
      exact isSolid_trimEnd filled

/-- A description holds only characters of its comment. -/
theorem notMem_description {c : Char} (h : ∀ text ∈ comment, c ∉ text.toList) :
    ∀ d ∈ (parse comment).description, c ∉ d.toList := by
  intro d hd member
  cases comment with
  | none => cases hd
  | some text =>
    rw [description_some] at hd
    split at hd
    · cases hd
    · obtain rfl := Option.some.inj hd
      have kept := mem_trim member
      rw [String.toList_ofList] at kept
      exact h text rfl ((split_sublist text.toList).subset kept)

end GraphqlCrud.DocComment
