import GraphqlCrud.Text.Blank
import GraphqlCrud.Text.Identifier
import GraphqlCrud.Proofs.Text.Lines
/-!
Names of the generated language. A name may hold any letters of other scripts, but of the ASCII
characters only those of identifiers.
-/
namespace GraphqlCrud.Text

/-- The text is not empty, and each of its ASCII characters may stand in an identifier. -/
structure IsWord (s : String) : Prop where
  nonempty : s ≠ ""
  plain : ∀ c ∈ s.toList, c.toNat < 128 → isIdentifierPart c = true

theorem isIdentifierPart_of_start {c : Char} (h : isIdentifierStart c = true) :
    isIdentifierPart c = true := by
  simp only [isIdentifierStart, isIdentifierPart, Char.isAlphanum, Bool.or_eq_true] at h ⊢
  rcases h with (h | h) | h
  · exact .inl (.inl (.inl h))
  · exact .inl (.inr h)
  · exact .inr h

theorem IsWord.of_isIdentifier {s : String} (h : isIdentifier s = true) : IsWord s := by
  unfold isIdentifier at h
  split at h
  · cases h
  · next c rest hs =>
    obtain ⟨first, others⟩ := Bool.and_eq_true_iff.mp h
    constructor
    · rintro rfl
      cases hs
    · intro d hd _
      rw [hs] at hd
      rcases List.mem_cons.mp hd with rfl | hd
      · exact isIdentifierPart_of_start first
      · exact List.all_eq_true.mp others d hd

theorem IsWord.ne_of_mem {s : String} (h : IsWord s) {c d : Char} (hc : c ∈ s.toList)
    (ascii : d.toNat < 128) (other : isIdentifierPart d = false) : c ≠ d := by
  rintro rfl
  have part := h.plain c hc ascii
  rw [other] at part
  cases part

/-- A character of ASCII that is no part of identifiers is in no word. -/
theorem IsWord.notMem {s : String} (h : IsWord s) {d : Char} (ascii : d.toNat < 128)
    (other : isIdentifierPart d = false) : d ∉ s.toList :=
  fun member => h.ne_of_mem member ascii other rfl

/-- A word holds none of several such characters. -/
theorem IsWord.notMem_marks {s : String} (h : IsWord s) {marks : List Char}
    (apart : (marks.all fun d => decide (d.toNat < 128) && !isIdentifierPart d) = true) {c : Char}
    (hc : c ∈ s.toList) : c ∉ marks := by
  intro mark
  obtain ⟨ascii, other⟩ := Bool.and_eq_true_iff.mp (List.all_eq_true.mp apart c mark)
  exact h.notMem (of_decide_eq_true ascii) ((Bool.not_eq_true' _).mp other) hc

theorem IsWord.isLine {s : String} (h : IsWord s) : IsLine s :=
  fun _ hc => ⟨h.ne_of_mem hc (by decide) (by decide), h.ne_of_mem hc (by decide) (by decide)⟩

theorem IsWord.append {s t : String} (hs : IsWord s) (ht : IsWord t) : IsWord (s ++ t) where
  nonempty := fun empty => hs.nonempty (String.append_eq_empty_iff.mp empty).1
  plain := by
    intro c hc ascii
    rw [String.toList_append, List.mem_append] at hc
    rcases hc with hc | hc
    · exact hs.plain c hc ascii
    · exact ht.plain c hc ascii

end GraphqlCrud.Text
