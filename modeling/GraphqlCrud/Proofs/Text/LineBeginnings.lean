import GraphqlCrud.Proofs.Text.Lines
/-!
What stands at the beginning of some line of a text.
-/
namespace GraphqlCrud.Text

/-- The text before a place ends a line, or there is none. -/
def EndsLine (before : String) : Prop := before = "" ∨ ∃ lines, before = lines ++ "\n"

/-- Some line of the text begins with `head`. -/
def HasLineBeginning (text head : String) : Prop :=
  ∃ before rest, text = before ++ head ++ rest ∧ EndsLine before

theorem EndsLine.append {first second : String} (h₁ : EndsLine first) (h₂ : EndsLine second) :
    EndsLine (first ++ second) := by
  rcases h₂ with rfl | ⟨lines, rfl⟩
  · simpa only [String.append_empty] using h₁
  · exact .inr ⟨first ++ lines, by rw [String.append_assoc]⟩

theorem endsLine_ended (lines : List String) : EndsLine (ended lines) := by
  rcases lines.eq_nil_or_concat with rfl | ⟨front, last, rfl⟩
  · exact .inl rfl
  · exact .inr ⟨ended front ++ last, by simp [String.append_assoc]⟩

theorem hasLineBeginning_append (head rest : String) : HasLineBeginning (head ++ rest) head :=
  ⟨"", rest, by rw [String.empty_append], .inl rfl⟩

theorem HasLineBeginning.append_right {text head : String} (h : HasLineBeginning text head)
    (more : String) : HasLineBeginning (text ++ more) head := by
  obtain ⟨before, rest, rfl, hb⟩ := h
  exact ⟨before, rest ++ more, by simp only [String.append_assoc], hb⟩

theorem HasLineBeginning.append_left {text head : String} (h : HasLineBeginning text head)
    {first : String} (hf : EndsLine first) : HasLineBeginning (first ++ text) head := by
  obtain ⟨before, rest, rfl, hb⟩ := h
  exact ⟨first ++ before, rest, by simp only [String.append_assoc], hf.append hb⟩

/-- What begins a line of one of several texts does so when they stand one below the other. -/
theorem HasLineBeginning.intercalate {texts : List String} {text head : String}
    (h : HasLineBeginning text head) (member : text ∈ texts) :
    HasLineBeginning ("\n".intercalate texts) head := by
  induction texts with
  | nil => cases member
  | cons first texts ih =>
    cases texts with
    | nil =>
      obtain rfl := List.mem_singleton.mp member
      simpa only [String.intercalate_singleton] using h
    | cons second texts =>
      rw [String.intercalate_cons_cons]
      rcases List.mem_cons.mp member with rfl | member
      · rw [String.append_assoc]
        exact h.append_right _
      · exact (ih member).append_left (.inr ⟨first, rfl⟩)

end GraphqlCrud.Text
