import GraphqlCrud.Proofs.Layout.Rendering
import GraphqlCrud.Proofs.Text.Endings
/-!
Indentation as a pass over characters. It cannot tell code from the inside of a literal: every line
that holds something moves.
-/
namespace GraphqlCrud.Layout

open Text

/-- The characters with two more spaces before each line that holds something; `begins` says
whether the first of them begins a line. -/
def shift (begins : Bool) : List Char → List Char
  | [] => []
  | c :: rest =>
    (if begins && c != '\n' then [' ', ' ', c] else [c]) ++ shift (c == '\n') rest

theorem shift_cons (begins : Bool) (c : Char) (rest : List Char) : shift begins (c :: rest) =
    (if begins && c != '\n' then [' ', ' ', c] else [c]) ++ shift (c == '\n') rest := rfl

/-- The text one level further in, its first line apart. -/
def hanging (s : String) : String := String.ofList (shift false s.toList)

/-- The text one level further in. -/
def inside (s : String) : String := String.ofList (shift true s.toList)

/-- Whether what follows some characters begins a line. -/
def endsLine (begins : Bool) (s : List Char) : Bool := s.getLast?.elim begins (· == '\n')

theorem shift_append (begins : Bool) (s t : List Char) :
    shift begins (s ++ t) = shift begins s ++ shift (endsLine begins s) t := by
  induction s generalizing begins with
  | nil => rfl
  | cons c s ih =>
    have last : endsLine begins (c :: s) = endsLine (c == '\n') s := by
      rw [endsLine, List.getLast?_cons, endsLine]
      cases s.getLast? <;> rfl
    rw [List.cons_append, shift_cons, ih, last, shift_cons, List.append_assoc]

theorem shift_feed (begins : Bool) (s : List Char) :
    shift begins ('\n' :: s) = '\n' :: shift true s := by
  cases begins <;> rfl

theorem shift_false_cons {c : Char} (h : c ≠ '\n') (s : List Char) :
    shift false (c :: s) = c :: shift false s := by
  have unended : (c == '\n') = false := beq_eq_false_iff_ne.mpr h
  rw [shift_cons, unended]
  rfl

theorem shift_true_cons {c : Char} (h : c ≠ '\n') (s : List Char) :
    shift true (c :: s) = ' ' :: ' ' :: shift false (c :: s) := by
  have unended : (c == '\n') = false := beq_eq_false_iff_ne.mpr h
  simp [shift_cons, unended, bne]

theorem shift_unbroken {s : List Char} (h : '\n' ∉ s) : shift false s = s := by
  induction s with
  | nil => rfl
  | cons c s ih =>
    obtain ⟨first, others⟩ := not_or.mp (mt List.mem_cons.mpr h)
    rw [shift_false_cons (Ne.symm first), ih others]

theorem mem_shift {begins : Bool} {s : List Char} {c : Char} (h : c ∈ shift begins s) :
    c ∈ s ∨ c = ' ' := by
  induction s generalizing begins with
  | nil => cases h
  | cons d s ih =>
    rw [shift_cons, List.mem_append] at h
    rcases h with h | h
    · have first : c = ' ' ∨ c = d := by
        split at h
        · simpa [or_assoc] using h
        · exact .inr (List.mem_singleton.mp h)
      exact first.elim .inr fun same => .inl (same ▸ List.mem_cons_self)
    · exact (ih h).imp_left (List.mem_cons_of_mem d)

theorem length_le_length_shift (begins : Bool) (s : List Char) :
    s.length ≤ (shift begins s).length := by
  induction s generalizing begins with
  | nil => exact Nat.le_refl _
  | cons c s ih =>
    have rest := ih (c == '\n')
    rw [shift_cons, List.length_append, List.length_cons]
    split <;> simp only [List.length_cons, List.length_nil] <;> omega

/-- Where something visible comes last, a line before it has moved. -/
theorem length_lt_length_shift (s : List Char) {c : Char} (visible : c ≠ '\n') :
    (s ++ [c]).length < (shift true (s ++ [c])).length := by
  induction s with
  | nil =>
    rw [List.nil_append, shift_true_cons visible, shift_unbroken (by simpa using visible.symm)]
    simp only [List.length_cons, List.length_nil]
    omega
  | cons d s ih =>
    by_cases feed : d = '\n'
    · rw [feed, List.cons_append, shift_feed, List.length_cons, List.length_cons]
      omega
    · have kept := length_le_length_shift false (d :: (s ++ [c]))
      rw [List.cons_append, shift_true_cons feed]
      simp only [List.length_cons] at kept ⊢
      omega

/-- A text that ends in something visible stays as it is only on a single line. -/
theorem hanging_eq_self_iff {s : String} (h : IsSolid s) : hanging s = s ↔ '\n' ∉ s.toList := by
  obtain ⟨init, c, hs, solid⟩ := h
  have visible := ne_feed_of_visible solid
  rw [hanging, ← String.toList_inj, String.toList_ofList]
  constructor
  · intro same feed
    -- What follows a line feed ends like the text itself, so it grows.
    obtain ⟨before, after, split⟩ := List.append_of_mem feed
    obtain ⟨kept, rfl⟩ := exists_concat_of_append_cons (split.symm.trans hs) visible
    have grown := length_lt_length_shift kept visible
    have first := length_le_length_shift false before
    rw [split, shift_append, shift_feed] at same
    have lengths := congrArg List.length same
    simp only [List.length_append, List.length_cons] at lengths grown
    omega
  · exact shift_unbroken

theorem endsLine_of_isSolid {s : String} (h : IsSolid s) (begins : Bool) :
    endsLine begins s.toList = false := by
  obtain ⟨init, c, hs, solid⟩ := h
  rw [endsLine, hs, List.getLast?_concat]
  exact beq_eq_false_iff_ne.mpr (ne_feed_of_visible solid)

theorem isSolid_hanging {s : String} (h : IsSolid s) : IsSolid (hanging s) := by
  obtain ⟨init, c, hs, solid⟩ := h
  have last (begins : Bool) : ∃ spaces, shift begins [c] = spaces ++ [c] := by
    rw [shift_cons]
    split
    · exact ⟨[' ', ' '], rfl⟩
    · exact ⟨[], rfl⟩
  obtain ⟨spaces, ended⟩ := last (endsLine false init)
  refine ⟨shift false init ++ spaces, c, ?_, solid⟩
  rw [hanging, String.toList_ofList, hs, shift_append, ended, List.append_assoc]

theorem hanging_append {s : String} (h : '\n' ∉ s.toList) (t : String) :
    hanging (s ++ t) = s ++ hanging t := by
  have within : endsLine false s.toList = false := by
    rw [endsLine]
    cases last : s.toList.getLast? with
    | none => rfl
    | some c =>
      refine beq_eq_false_iff_ne.mpr ?_
      rintro rfl
      exact h (List.mem_of_getLast? last)
  apply String.toList_injective
  rw [hanging, String.toList_append, shift_append, shift_unbroken h, within, hanging]
  simp

theorem hanging_of_unbroken {s : String} (h : '\n' ∉ s.toList) : hanging s = s := by
  rw [hanging, shift_unbroken h, String.ofList_toList]

/-- A line that holds something moves as a whole, and the text below it on its own. -/
theorem inside_append_feed {s : String} {c : Char} {cs : List Char} (hs : s.toList = c :: cs)
    (visible : c ≠ '\n') (rest : String) :
    inside (s ++ "\n" ++ rest) = "  " ++ hanging s ++ "\n" ++ inside rest := by
  have feed : "\n".toList = ['\n'] := rfl
  have margin : "  ".toList = [' ', ' '] := rfl
  apply String.toList_injective
  simp only [inside, hanging, String.toList_ofList, String.toList_append, feed, margin, hs,
    List.append_assoc, List.cons_append, List.nil_append]
  rw [shift_true_cons visible, ← List.cons_append, shift_append, shift_feed]

/-- The same of a line without line breaks. -/
theorem inside_line {s : String} {c : Char} {cs : List Char} (hs : s.toList = c :: cs)
    (line : IsLine s) (rest : String) : inside (s ++ "\n" ++ rest) = "  " ++ s ++ "\n" ++ inside rest := by
  have visible : c ≠ '\n' := (line c (hs ▸ List.mem_cons_self)).1
  rw [inside_append_feed hs visible, hanging_of_unbroken line.unbroken]

theorem inside_ended {ls : List String} (h : ∀ l ∈ ls, '\n' ∉ l.toList) :
    ended (ls.map inward) = inside (ended ls) := by
  induction ls with
  | nil => rfl
  | cons l ls ih =>
    obtain ⟨first, others⟩ := List.forall_mem_cons.mp h
    rw [List.map_cons, ended_cons, ended_cons, ih others]
    cases hl : l.toList with
    | nil =>
      obtain rfl := String.toList_eq_nil_iff.mp hl
      have empty : inward "" = "" := if_pos rfl
      apply String.toList_injective
      simp [inside, shift_feed, empty]
    | cons c cs =>
      have visible : c ≠ '\n' := by
        rintro rfl
        exact first (hl ▸ List.mem_cons_self)
      have filled : l ≠ "" := by
        rintro rfl
        cases hl
      rw [inside_append_feed hl visible, hanging_of_unbroken first, inward_of_ne_empty filled]

/-- Below lines with a margin the text goes on as it would without them. -/
theorem inside_ended_append (ls : List String) (rest : String) :
    inside (ended (ls.map ("  " ++ ·)) ++ rest) =
      ended (ls.map fun l => "    " ++ hanging l) ++ inside rest := by
  have margin : "  ".toList = [' ', ' '] := rfl
  have both : "    " = "  " ++ "  " := by decide
  induction ls with
  | nil => simp
  | cons l ls ih =>
    have start : ("  " ++ l).toList = ' ' :: ' ' :: l.toList := by
      rw [String.toList_append, margin]
      rfl
    rw [List.map_cons, ended_cons, String.append_assoc, inside_append_feed start (by decide), ih,
      hanging_append (by decide), List.map_cons, ended_cons, both]
    simp only [String.append_assoc]

end GraphqlCrud.Layout
