import GraphqlCrud.Proofs.DocComment.Pieces
/-!
What is left of a comment when its markers are taken out. The texts around the markers come together,
and they can make a marker that was none before: exactly when one of them ends in the beginning of a
marker that the texts after it complete and close.
-/
namespace GraphqlCrud.DocComment

open Text

/-- A marker that is closed stands in the text. -/
def HasMarker (s : String) : Prop :=
  ∃ before after, s.toList = before ++ (markerStart ++ after) ∧ ')' ∈ after

/-- The text ends in the beginning of a marker that what comes later completes and closes. -/
def Joins (text later : String) : Prop :=
  ∃ front back rest, front ≠ [] ∧ back ≠ [] ∧ front ++ back = markerStart ∧
    front <:+ text.toList ∧ later.toList = back ++ rest ∧ ')' ∈ rest

/-- The texts around the markers make a marker where one of them ends. -/
def Pieces.Rejoins : Pieces → Prop
  | .last _ => False
  | .marked text _ rest => Joins text rest.text ∨ rest.Rejoins

/-! Markers in a text -/

theorem not_hasMarker_iff {text : String} :
    ¬ HasMarker text ↔ (Pieces.last text).IsApart := by
  constructor
  · intro clean
    refine .last fun before after place _ closed => clean ?_
    refine ⟨before.toList, after.toList, ?_, closed⟩
    rw [place, String.toList_append, String.toList_append, List.append_assoc, toList_marker]
  · rintro ⟨isOpen⟩ ⟨before, after, place, closed⟩
    have present : (cut? markerStart text.toList).isSome = true :=
      isSome_cut?.mpr ⟨before, after, by rw [place, List.append_assoc]⟩
    obtain ⟨⟨first, rest⟩, cut⟩ := Option.isSome_iff_exists.mp present
    have free := not_infix_of_cut? (by decide) cut
    have last := isOpen _ _ (eq_append_of_toList (eq_append_of_cut? cut)) (free_ofList_iff.mpr free)
    rw [String.toList_ofList] at last
    rw [← List.append_assoc] at place
    exact last ((suffix_of_cut? cut place).subset closed)

/-- Behind a text without a marker, a marker stands later on or where the text ends. -/
theorem hasMarker_append_iff {text later : String} (free : occurs marker text = false) :
    HasMarker (text ++ later) ↔ Joins text later ∨ HasMarker later := by
  rw [occurs_eq_false_iff, toList_marker] at free
  constructor
  · rintro ⟨before, after, place, closed⟩
    rw [String.toList_append] at place
    rcases List.append_eq_append_iff.mp place with ⟨mid, -, inLater⟩ | ⟨front, inText, reach⟩
    · exact .inr ⟨mid, after, inLater, closed⟩
    · -- The marker begins in the text, so that it ends later.
      rcases List.append_eq_append_iff.mp reach with ⟨mid, inside, -⟩ | ⟨back, split, rest⟩
      · refine absurd ⟨before, mid, ?_⟩ free
        rw [inText, inside, List.append_assoc]
      · by_cases atEnd : front = []
        · rw [atEnd, List.nil_append] at split
          exact .inr ⟨[], after, by rw [rest, split, List.nil_append], closed⟩
        · by_cases whole : back = []
          · rw [whole, List.append_nil] at split
            exact absurd ⟨before, [], by rw [List.append_nil, inText, split]⟩ free
          · exact .inl ⟨front, back, after, atEnd, whole, split.symm, ⟨before, inText.symm⟩, rest,
              closed⟩
  · rintro (⟨front, back, rest, -, -, split, ⟨before, inText⟩, inLater, closed⟩ |
      ⟨before, after, place, closed⟩)
    · refine ⟨before, rest, ?_, closed⟩
      rw [String.toList_append, ← inText, inLater, ← split]
      simp only [List.append_assoc]
    · refine ⟨text.toList ++ before, after, ?_, closed⟩
      rw [String.toList_append, place, List.append_assoc]

theorem hasMarker_text_iff {p : Pieces} (h : p.IsApart) : HasMarker p.text ↔ p.Rejoins := by
  induction h with
  | last isOpen => exact iff_of_false (not_hasMarker_iff.mpr (.last isOpen)) id
  | marked free closed later ih => rw [Pieces.text, hasMarker_append_iff free, ih, Pieces.Rejoins]

/-- No marker begins or ends in white space. -/
theorem hasMarker_trim_iff {s : String} : HasMarker (trim s) ↔ HasMarker s := by
  obtain ⟨lead, trail, whole, blankLead, blankTrail⟩ := exists_trim s
  constructor
  · rintro ⟨before, after, place, closed⟩
    refine ⟨lead ++ before, after ++ trail, ?_, List.mem_append_left trail closed⟩
    rw [whole, place]
    simp only [List.append_assoc]
  · rintro ⟨before, after, place, closed⟩
    obtain ⟨inner, start, -⟩ := exists_markerStart
    obtain ⟨arguments, rest, rfl⟩ := List.append_of_mem closed
    have opens : '@' ∉ lead := fun member => Bool.false_ne_true (blankLead _ member)
    have closes : ')' ∉ trail := fun member => Bool.false_ne_true (blankTrail _ member)
    rw [whole, List.append_assoc, start, List.cons_append] at place
    obtain ⟨before, place⟩ := exists_of_append_eq_append_cons opens place
    rw [← List.cons_append, ← start, ← List.append_assoc, ← List.append_assoc] at place
    obtain ⟨after, place⟩ := exists_of_append_eq_cons_append closes place
    refine ⟨before, arguments ++ ')' :: after, ?_, by simp⟩
    rw [place]
    simp only [List.append_assoc]

/-! The description, read again -/

theorem description_eq_some_iff {p : Pieces} (h : p.IsApart) {d : String} :
    (parse (some p.whole)).description = some d ↔ trim p.text ≠ "" ∧ trim p.text = d := by
  rw [parse_whole h]
  dsimp only
  split
  · next empty => exact iff_of_false (by simp) fun filled => filled.1 empty
  · next filled => rw [Option.some_inj, and_iff_right filled]

/-- The description of a comment holds a marker exactly when the texts around the markers make one,
and read again it says the same and leaves out nothing exactly when they make none. -/
theorem description_isClean_iff {p : Pieces} (apart : p.IsApart) {d : String}
    (described : (parse (some p.whole)).description = some d) :
    (HasMarker d ↔ p.Rejoins) ∧
      (parse (some d) = { description := some d, omission := .nowhere } ↔ ¬ p.Rejoins) := by
  obtain ⟨filled, rfl⟩ := description_eq_some_iff apart |>.mp described
  have held : HasMarker (trim p.text) ↔ p.Rejoins :=
    hasMarker_trim_iff.trans (hasMarker_text_iff apart)
  refine ⟨held, ?_⟩
  rw [← held]
  constructor
  · intro same
    obtain ⟨q, apart, whole⟩ := exists_pieces (trim p.text).toList
    have whole : q.whole = trim p.text := String.toList_injective whole
    have none : q.arguments = [] := by
      rw [← omission_eq_nowhere_iff apart, whole, same]
    rw [not_hasMarker_iff, ← whole]
    cases q with
    | last text => exact apart
    | marked text arguments rest => cases none
  · intro clean
    have single := parse_whole (not_hasMarker_iff.mp clean)
    rw [Pieces.whole, Pieces.text, trim_trim, if_neg filled] at single
    exact single

/-- A comment whose texts hold parts of a marker that do not come to stand together. -/
def askPieces : Pieces :=
  .marked "Ask @Pothos " "where" (.marked "" "create" (.last ".omit(later"))

theorem description_isClean_ask :
    (parse (some askPieces.whole)).description = some "Ask @Pothos .omit(later" ∧
    parse (some "Ask @Pothos .omit(later") =
      { description := some "Ask @Pothos .omit(later", omission := .nowhere } := by
  have unclosed : ∀ s : String, ')' ∉ s.toList → ¬ HasMarker s := by
    rintro s absent ⟨before, after, place, closed⟩
    rw [place] at absent
    exact absent (List.mem_append_right _ (List.mem_append_right _ closed))
  have apart : askPieces.IsApart :=
    .marked (by decide +kernel) (by decide) (.marked (by decide +kernel) (by decide)
      (not_hasMarker_iff.mp (unclosed _ (by decide))))
  have described : (parse (some askPieces.whole)).description = some "Ask @Pothos .omit(later" := by
    decide +kernel
  have clean := description_isClean_iff apart described
  exact ⟨described, clean.2.mpr (mt clean.1.mpr (unclosed _ (by decide)))⟩

/-- What stands around the inner marker is a marker when the inner one is gone. -/
theorem description_rejoined :
    (parse (some "@Pothos@Pothos.omit().omit()")).description = some "@Pothos.omit()" ∧
    HasMarker "@Pothos.omit()" ∧
    parse (some "@Pothos.omit()") ≠
      { description := some "@Pothos.omit()", omission := .nowhere } :=
  ⟨by decide +kernel, ⟨[], [')'], by decide, by decide⟩, by decide +kernel⟩

end GraphqlCrud.DocComment
