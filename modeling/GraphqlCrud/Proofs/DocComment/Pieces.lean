import Mathlib.Data.List.Infix
import GraphqlCrud.Proofs.Text.Search
import GraphqlCrud.Proofs.DocComment
/-!
What a documentation comment says, in terms of how it is put together. A comment consists of texts
with closed markers between them. Its description is what the texts say together; what it leaves out
is what the arguments of its markers say together, in whatever order they stand.
-/
namespace GraphqlCrud

open Text

theorem InputCategory.ofWord?_eq_some {word : String} {c : InputCategory} :
    ofWord? word = some c ↔ word = c.word := by
  constructor
  · intro h
    have same := List.find?_some h
    exact (beq_iff_eq.mp same).symm
  · rintro rfl
    cases c <;> decide

namespace Omission

theorem mem_foldl_add {c : InputCategory} (first second : List InputCategory) :
    c ∈ second.foldl (fun held c => if held.contains c then held else held ++ [c]) first ↔
      c ∈ first ∨ c ∈ second := by
  induction second generalizing first with
  | nil => simp
  | cons d second ih =>
    rw [List.foldl_cons, ih, List.mem_cons]
    split
    · next held =>
      have member : d ∈ first := by simpa using held
      constructor
      · rintro (old | new)
        · exact .inl old
        · exact .inr (.inr new)
      · rintro (old | rfl | new)
        · exact .inl old
        · exact .inl member
        · exact .inr new
    · rw [List.mem_append, List.mem_singleton, or_assoc]

theorem omitsObject_merge (first second : Omission) :
    (first.merge second).omitsObject = (first.omitsObject || second.omitsObject) := by
  cases first <;> cases second <;> rfl

theorem omitsInput_merge (c : InputCategory) (first second : Omission) :
    (first.merge second).omitsInput c = (first.omitsInput c || second.omitsInput c) := by
  cases first with
  | inputs held =>
    cases second with
    | inputs added =>
      rw [Bool.eq_iff_iff, Bool.or_eq_true]
      simp only [merge, omitsInput, List.contains_iff_mem]
      simpa using mem_foldl_add (c := c) held added
    | nowhere => exact (Bool.or_false _).symm
    | everywhere => exact (Bool.or_true _).symm
  | nowhere => cases second <;> rfl
  | everywhere => cases second <;> rfl

theorem merge_bne_nowhere (first second : Omission) :
    (first.merge second != .nowhere) = (first != .nowhere || second != .nowhere) := by
  cases first <;> cases second <;> rfl

theorem ofArguments_ne_nowhere (arguments : String) : ofArguments arguments ≠ .nowhere := by
  unfold ofArguments
  split <;> exact nofun

/-- What two markers say together, if one of them says it, is said by one of any number. -/
theorem foldl_merge_iff (tells : Omission → Bool)
    (h : ∀ first second, tells (merge first second) = (tells first || tells second))
    (markers : List String) (o : Omission) :
    tells (markers.foldl (fun o arguments => o.merge (ofArguments arguments)) o) = true ↔
      tells o = true ∨ ∃ arguments ∈ markers, tells (ofArguments arguments) = true := by
  induction markers generalizing o with
  | nil => simp
  | cons arguments markers ih =>
    rw [List.foldl_cons, ih, h, Bool.or_eq_true, or_assoc]
    simp only [List.mem_cons, exists_eq_or_imp]

/-- Nothing but white space stands between the commas of the arguments. -/
def ListsNothing (arguments : String) : Prop := ∀ name ∈ parts ',' arguments, allBlank name = true

/-- The name of the category stands between the commas of the arguments. -/
def Lists (arguments : String) (c : InputCategory) : Prop :=
  ∃ name ∈ parts ',' arguments, trim name = c.word

instance (arguments : String) : Decidable (ListsNothing arguments) :=
  inferInstanceAs (Decidable (∀ name ∈ parts ',' arguments, allBlank name = true))

instance (arguments : String) (c : InputCategory) : Decidable (Lists arguments c) :=
  inferInstanceAs (Decidable (∃ name ∈ parts ',' arguments, trim name = c.word))

theorem names_eq_nil_iff {arguments : String} :
    ((parts ',' arguments).map trim).filter (· != "") = [] ↔ ListsNothing arguments := by
  rw [List.filter_eq_nil_iff, List.forall_mem_map, ListsNothing]
  refine forall₂_congr fun name _ => ?_
  rw [allBlank_iff_trim_eq, bne_iff_ne, Classical.not_not]

theorem omitsObject_ofArguments {arguments : String} :
    (ofArguments arguments).omitsObject = true ↔ ListsNothing arguments := by
  rw [← names_eq_nil_iff, ofArguments]
  split
  · next none => exact iff_of_true rfl none
  · next filled => exact iff_of_false Bool.false_ne_true filled

theorem omitsInput_ofArguments {arguments : String} {c : InputCategory} :
    (ofArguments arguments).omitsInput c = true ↔ ListsNothing arguments ∨ Lists arguments c := by
  have visible : c.word ≠ "" := by cases c <;> decide
  rw [← names_eq_nil_iff, ofArguments]
  split
  · next none => exact iff_of_true rfl (.inl none)
  · next filled =>
    rw [or_iff_right filled, omitsInput, List.contains_iff_mem, List.mem_filterMap, Lists]
    simp only [InputCategory.ofWord?_eq_some, exists_eq_right, List.mem_filter, List.mem_map,
      bne_iff_ne, and_iff_left visible]

end Omission

namespace DocComment

/-- What a marker begins with. -/
def marker : String := "@Pothos.omit("

theorem toList_marker : marker.toList = markerStart := rfl

/-- How a comment is put together: a text, or a text that a marker with its arguments and more
follow. -/
inductive Pieces where
  | last (text : String)
  | marked (text arguments : String) (rest : Pieces)

namespace Pieces

/-- The comment that the pieces make. -/
def whole : Pieces → String
  | .last text => text
  | .marked text arguments rest => text ++ marker ++ arguments ++ ")" ++ rest.whole

/-- The texts without the markers. -/
def text : Pieces → String
  | .last text => text
  | .marked text _ rest => text ++ rest.text

def arguments : Pieces → List String
  | .last _ => []
  | .marked _ arguments rest => arguments :: rest.arguments

/-- The texts hold no marker, but the last may hold one that is not closed; and the arguments of a
marker end where it does. -/
inductive IsApart : Pieces → Prop where
  | last {text : String} (isOpen : ∀ before after, text = before ++ marker ++ after →
      occurs marker before = false → ')' ∉ after.toList) : IsApart (.last text)
  | marked {text arguments : String} {rest : Pieces} (free : occurs marker text = false)
    (closed : ')' ∉ arguments.toList) (later : IsApart rest) :
    IsApart (.marked text arguments rest)

theorem toList_whole_marked (text arguments : String) (rest : Pieces) :
    (marked text arguments rest).whole.toList =
      text.toList ++ (markerStart ++ (arguments.toList ++ ([')'] ++ rest.whole.toList))) := by
  simp only [whole, String.toList_append, List.append_assoc, toList_marker]
  rfl

end Pieces

/-! The pieces of a comment -/

/-- The first character of a marker stands in it only there. -/
theorem exists_markerStart : ∃ inner, markerStart = '@' :: inner ∧ '@' ∉ inner :=
  ⟨"Pothos.omit(".toList, by decide, by decide⟩

theorem free_ofList_iff {s : List Char} :
    occurs marker (String.ofList s) = false ↔ ¬ markerStart <:+: s := by
  rw [occurs_eq_false_iff, toList_marker, String.toList_ofList]

theorem split_of_open {s : List Char}
    (h : ∀ before after, cut? markerStart s = some (before, after) → ')' ∉ after) :
    split s = (s, []) := by
  rw [split]
  split
  · rfl
  · next before after cut =>
    have none : cut? [')'] after = none := by
      rw [cut?_eq_none, List.singleton_infix_iff]
      exact h before after cut
    split
    · rfl
    · next closed =>
      rw [none] at closed
      cases closed

theorem split_marked {s before after arguments rest : List Char}
    (cut : cut? markerStart s = some (before, after))
    (closed : cut? [')'] after = some (arguments, rest)) :
    split s = (before ++ (split rest).1, arguments :: (split rest).2) := by
  rw [split]
  split
  · next none =>
    rw [none] at cut
    cases cut
  · next found =>
    obtain ⟨rfl, rfl⟩ := Prod.mk.inj (Option.some.inj (cut.symm.trans found))
    split
    · next none =>
      rw [none] at closed
      cases closed
    · next found =>
      obtain ⟨rfl, rfl⟩ := Prod.mk.inj (Option.some.inj (closed.symm.trans found))
      rfl

theorem eq_append_of_toList {s : String} {before after : List Char}
    (h : s.toList = before ++ markerStart ++ after) :
    s = String.ofList before ++ marker ++ String.ofList after := by
  apply String.toList_injective
  rw [h, String.toList_append, String.toList_append, String.toList_ofList, String.toList_ofList,
    toList_marker]

/-- A comment is taken apart into its pieces. -/
theorem split_whole {p : Pieces} (h : p.IsApart) :
    split p.whole.toList = (p.text.toList, p.arguments.map String.toList) := by
  induction h with
  | @last text isOpen =>
    refine split_of_open ?_
    intro before after cut
    have free := not_infix_of_cut? (by decide) cut
    have last := isOpen _ _ (eq_append_of_toList (eq_append_of_cut? cut)) (free_ofList_iff.mpr free)
    rwa [String.toList_ofList] at last
  | @marked text arguments rest free closed later ih =>
    obtain ⟨inner, start, apart⟩ := exists_markerStart
    rw [occurs_eq_false_iff, toList_marker] at free
    have cut : cut? markerStart (Pieces.marked text arguments rest).whole.toList =
        some (text.toList, arguments.toList ++ ([')'] ++ rest.whole.toList)) := by
      rw [Pieces.toList_whole_marked]
      rw [start] at free ⊢
      exact cut?_append apart free _
    have close : cut? [')'] (arguments.toList ++ ([')'] ++ rest.whole.toList)) =
        some (arguments.toList, rest.whole.toList) :=
      cut?_append List.not_mem_nil (mt (List.singleton_infix_iff _ _).mp closed) _
    rw [split_marked cut close, ih, Pieces.text, Pieces.arguments, List.map_cons,
      String.toList_append]

theorem toList_place {s : List Char} {before after : String}
    (h : String.ofList s = before ++ marker ++ after) :
    s = before.toList ++ markerStart ++ after.toList := by
  rw [← toList_marker, ← String.toList_append, ← String.toList_append, ← h, String.toList_ofList]

theorem exists_pieces (s : List Char) : ∃ p : Pieces, p.IsApart ∧ p.whole.toList = s := by
  fun_induction split s with
  | case1 s none =>
    refine ⟨.last (String.ofList s), .last ?_, String.toList_ofList⟩
    intro before after place
    exact absurd ⟨before.toList, after.toList, (toList_place place).symm⟩ (cut?_eq_none.mp none)
  | case2 s first rest cut none =>
    refine ⟨.last (String.ofList s), .last ?_, String.toList_ofList⟩
    intro before after place _ closed
    have later := (suffix_of_cut? cut (toList_place place)).subset closed
    exact cut?_eq_none.mp none ((List.singleton_infix_iff _ _).mpr later)
  | case3 s before after cut arguments rest closed text more read ih =>
    obtain ⟨p, apart, whole⟩ := ih
    refine ⟨.marked (String.ofList before) (String.ofList arguments) p, .marked ?_ ?_ apart, ?_⟩
    · exact free_ofList_iff.mpr (not_infix_of_cut? (by decide) cut)
    · rw [String.toList_ofList, ← List.singleton_infix_iff]
      exact not_infix_of_cut? (by decide) closed
    · rw [Pieces.toList_whole_marked, whole, String.toList_ofList, String.toList_ofList,
        eq_append_of_cut? cut, eq_append_of_cut? closed]
      simp only [List.append_assoc]

/-! What the pieces say -/

theorem parse_whole {p : Pieces} (h : p.IsApart) : parse (some p.whole) =
    { description := if trim p.text = "" then none else some (trim p.text)
      omission :=
        p.arguments.foldl (fun o arguments => o.merge (.ofArguments arguments)) .nowhere } := by
  simp only [parse, split_whole h, String.ofList_toList, List.foldl_map]

theorem omission_eq_nowhere_iff {p : Pieces} (h : p.IsApart) :
    (parse (some p.whole)).omission = .nowhere ↔ p.arguments = [] := by
  have merged := Omission.foldl_merge_iff (· != .nowhere) Omission.merge_bne_nowhere p.arguments
    .nowhere
  rw [parse_whole h, ← not_iff_not, ← ne_eq, ← bne_iff_ne, merged,
    List.eq_nil_iff_forall_not_mem]
  simp [Omission.ofArguments_ne_nowhere]

/-- What a comment means that is made of the pieces. -/
structure Pieces.Means (p : Pieces) (c : DocComment) : Prop where
  /-- The description is what the texts say, an unclosed marker included. -/
  description : c.description = if allBlank p.text then none else some (trim p.text)
  omitsObject : c.omission.omitsObject = true ↔ ∃ a ∈ p.arguments, Omission.ListsNothing a
  omitsInput : ∀ category, c.omission.omitsInput category = true ↔
    c.omission.omitsObject = true ∨ ∃ a ∈ p.arguments, Omission.Lists a category
  unmarked : c.omission = .nowhere ↔ p.arguments = []

theorem means_parse {p : Pieces} (h : p.IsApart) : p.Means (parse (some p.whole)) := by
  have object :=
    Omission.foldl_merge_iff Omission.omitsObject Omission.omitsObject_merge p.arguments .nowhere
  have input := fun c =>
    Omission.foldl_merge_iff (Omission.omitsInput c) (Omission.omitsInput_merge c) p.arguments
      .nowhere
  simp only [Omission.omitsObject_ofArguments, Omission.omitsInput_ofArguments] at object input
  rw [or_iff_right (a := Omission.omitsObject .nowhere = true) Bool.false_ne_true] at object
  refine ⟨?_, ?_, ?_, omission_eq_nowhere_iff h⟩
  · rw [parse_whole h]
    simp only [allBlank_iff_trim_eq]
  · rw [parse_whole h]
    exact object
  · intro c
    rw [parse_whole h, input, object, ← exists_or,
      or_iff_right (a := Omission.omitsInput c .nowhere = true) Bool.false_ne_true]
    simp only [and_or_left]

/-- Two omissions leave out the same. -/
def OmitsSame (first second : Omission) : Prop :=
  first.omitsObject = second.omitsObject ∧ ∀ c, first.omitsInput c = second.omitsInput c

/-- Every comment is made of pieces, and means what they do. Comments whose markers have the same
arguments, in whatever order and however often, leave out the same. -/
theorem parse_meansPieces (comment : String) :
    (∃ p : Pieces, p.IsApart ∧ p.whole = comment) ∧
    (∀ p : Pieces, p.IsApart → p.whole = comment → p.Means (parse (some comment))) ∧
    ∀ p q : Pieces, p.IsApart → q.IsApart → p.whole = comment →
      (∀ a, a ∈ p.arguments ↔ a ∈ q.arguments) →
        OmitsSame (parse (some comment)).omission (parse (some q.whole)).omission := by
  refine ⟨?_, ?_, ?_⟩
  · obtain ⟨p, apart, whole⟩ := exists_pieces comment.toList
    exact ⟨p, apart, String.toList_injective whole⟩
  · rintro p apart rfl
    exact means_parse apart
  · rintro p q first second rfl same
    have left := means_parse first
    have right := means_parse second
    have object : (parse (some p.whole)).omission.omitsObject =
        (parse (some q.whole)).omission.omitsObject := by
      rw [Bool.eq_iff_iff, left.omitsObject, right.omitsObject]
      simp only [same]
    refine ⟨object, fun c => ?_⟩
    rw [Bool.eq_iff_iff, left.omitsInput, right.omitsInput, object]
    simp only [same]

/-- A comment with two markers, of which the first has a blank and an unknown name, and a third that
is not closed. -/
def ownerPieces : Pieces :=
  .marked "The " "where, ,nonsense" (.marked "owner@" " create " (.last "'s @Pothos.omit(update"))

theorem isApart_ownerPieces : ownerPieces.IsApart := by
  refine .marked (by decide +kernel) (by decide) (.marked (by decide +kernel) (by decide) ?_)
  refine .last fun before after place _ closed => ?_
  have member : ')' ∈ "'s @Pothos.omit(update".toList := by
    rw [place, String.toList_append]
    exact List.mem_append_right _ closed
  revert member
  decide

theorem parse_meansPieces_owner : ownerPieces.IsApart ∧
    ownerPieces.whole =
      "The @Pothos.omit(where, ,nonsense)owner@@Pothos.omit( create )'s @Pothos.omit(update" ∧
    (parse (some ownerPieces.whole)).description = some "The owner@'s @Pothos.omit(update" ∧
    (parse (some ownerPieces.whole)).omission.omitsObject = false ∧
    (parse (some ownerPieces.whole)).omission.omitsInput .create = true ∧
    (parse (some ownerPieces.whole)).omission.omitsInput .update = false := by
  have means := (parse_meansPieces ownerPieces.whole).2.1 ownerPieces isApart_ownerPieces rfl
  have object : ¬ (parse (some ownerPieces.whole)).omission.omitsObject = true := by
    rw [means.omitsObject]
    decide +kernel
  refine ⟨isApart_ownerPieces, by decide, ?_, Bool.eq_false_iff.mpr object, ?_, ?_⟩
  · rw [means.description]
    decide +kernel
  · rw [means.omitsInput]
    exact .inr (by decide +kernel)
  · rw [Bool.eq_false_iff, ne_eq, means.omitsInput, not_or]
    exact ⟨object, by decide +kernel⟩

end DocComment
end GraphqlCrud
