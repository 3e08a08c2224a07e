import Mathlib.Data.List.Basic
import GraphqlCrud.Proofs.Layout.Hanging
import GraphqlCrud.Proofs.Text.Returns
import GraphqlCrud.Proofs.Text.Words
import GraphqlCrud.Script.Literal
/-!
The characters of string and template literals.
-/
namespace GraphqlCrud.Script

open Text Layout

/-- Between its marks a literal writes a character as a backslash and one that ends no line, or as
itself where it ends neither the literal nor the line. -/
def IsQuoting (mark : Char) (code : Char → List Char) : Prop :=
  ∀ c, (∃ d, code c = ['\\', d] ∧ d ≠ '\n' ∧ d ≠ '\r') ∨
    (code c = [c] ∧ c ∉ ['\n', '\r', '\\', mark])

theorem isQuoting_doubleQuotedChar : IsQuoting '"' doubleQuotedChar := by
  intro c
  unfold doubleQuotedChar
  split
  · exact .inl ⟨_, rfl, by decide⟩
  · exact .inl ⟨_, rfl, by decide⟩
  · exact .inl ⟨_, rfl, by decide⟩
  · exact .inl ⟨_, rfl, by decide⟩
  · exact .inl ⟨_, rfl, by decide⟩
  · next backslash mark feed ret _ =>
    refine .inr ⟨rfl, ?_⟩
    simp only [List.mem_cons, List.not_mem_nil, or_false, not_or]
    exact ⟨feed, ret, backslash, mark⟩

theorem isQuoting_singleQuotedChar : IsQuoting '\'' singleQuotedChar := by
  intro c
  unfold singleQuotedChar
  split
  · exact .inl ⟨_, rfl, by decide⟩
  · exact .inl ⟨_, rfl, by decide⟩
  · exact .inl ⟨_, rfl, by decide⟩
  · exact .inl ⟨_, rfl, by decide⟩
  · next backslash mark feed ret =>
    refine .inr ⟨rfl, ?_⟩
    simp only [List.mem_cons, List.not_mem_nil, or_false, not_or]
    exact ⟨feed, ret, backslash, mark⟩

theorem IsQuoting.isLine {mark : Char} {code : Char → List Char} (h : IsQuoting mark code)
    (hmark : mark ≠ '\n' ∧ mark ≠ '\r') (s : List Char) :
    IsLine (String.ofList (mark :: s.flatMap code ++ [mark])) := by
  have char (c : Char) : ∀ d ∈ code c, d ≠ '\n' ∧ d ≠ '\r' := by
    rcases h c with ⟨e, hcode, escape⟩ | ⟨hcode, plain⟩
    · rw [hcode]
      exact List.forall_mem_cons.mpr ⟨by decide, List.forall_mem_singleton.mpr escape⟩
    · rw [hcode]
      simp only [List.mem_cons, not_or] at plain
      exact List.forall_mem_singleton.mpr ⟨plain.1, plain.2.1⟩
  intro d hd
  rw [String.toList_ofList] at hd
  rcases List.mem_cons.mp hd with rfl | hd
  · exact hmark
  · rcases List.mem_append.mp hd with hd | hd
    · obtain ⟨c, -, hc⟩ := List.mem_flatMap.mp hd
      exact char c d hc
    · obtain rfl := List.mem_singleton.mp hd
      exact hmark

theorem isLine_doubleQuoted (s : String) : IsLine (doubleQuoted s) :=
  isQuoting_doubleQuotedChar.isLine (by decide) s.toList

theorem isLine_singleQuoted (s : String) : IsLine (singleQuoted s) :=
  isQuoting_singleQuotedChar.isLine (by decide) s.toList

/-- The characters of a word are written as they are by a code that escapes none of them. -/
theorem flatMap_of_isWord {s : String} (h : IsWord s) {code : Char → List Char}
    (kept : ∀ c, c ∉ ['\\', '\'', '"', '\n', '\r', '\t'] → code c = [c]) :
    s.toList.flatMap code = s.toList := by
  have plain : s.toList.flatMap code = s.toList.flatMap fun c => [c] := by
    apply List.flatMap_congr
    intro c hc
    exact kept c (h.notMem_marks (by decide) hc)
  rw [plain, List.flatMap_singleton']

/-- A word needs no escapes between quotes. -/
theorem singleQuoted_word {s : String} (h : IsWord s) : singleQuoted s = "'" ++ s ++ "'" := by
  have kept : s.toList.flatMap singleQuotedChar = s.toList := by
    apply flatMap_of_isWord h
    intro c plain
    unfold singleQuotedChar
    split <;> first | (exact absurd (by decide) plain) | rfl
  rw [singleQuoted, kept]
  apply String.toList_injective
  simp

theorem doubleQuoted_word {s : String} (h : IsWord s) : doubleQuoted s = "\"" ++ s ++ "\"" := by
  have kept : s.toList.flatMap doubleQuotedChar = s.toList := by
    apply flatMap_of_isWord h
    intro c plain
    unfold doubleQuotedChar
    split <;> first | (exact absurd (by decide) plain) | rfl
  rw [doubleQuoted, kept]
  apply String.toList_injective
  simp

/-- A character is escaped in a template if it is a backslash or a mark, or would open a
substitution. -/
theorem templateChars_cons (c : Char) (s : List Char) :
    templateChars (c :: s) =
      (if c = '\\' ∨ c = '\x60' ∨ (c = '$' ∧ s.head? = some '\x7b') then ['\\', c] else [c]) ++
        templateChars s := by
  by_cases backslash : c = '\\'
  · subst backslash
    simp [templateChars]
  by_cases mark : c = '\x60'
  · subst mark
    simp [templateChars]
  by_cases opens : c = '$' ∧ s.head? = some '\x7b'
  · obtain ⟨rfl, brace⟩ := opens
    obtain ⟨rest, rfl⟩ := List.head?_eq_some_iff.mp brace
    rw [if_pos (.inr (.inr ⟨rfl, brace⟩)), templateChars,
      templateChars_plain (by decide) (by decide) (by decide)]
    rfl
  · rw [if_neg (by tauto), List.singleton_append, templateChars.eq_5 _ _ _ backslash mark]
    rintro rest rfl rfl
    exact opens ⟨rfl, rfl⟩

/-- Nothing but a backslash is put in front of a text or behind it. -/
theorem head?_templateChars {s rest : List Char} {c : Char} (other : c ∉ ['\\', '\x60'])
    (h : (templateChars s ++ '\x60' :: rest).head? = some c) : s.head? = some c := by
  simp only [List.mem_cons, List.not_mem_nil, or_false, not_or] at other
  cases s with
  | nil => exact absurd (Option.some.inj h).symm other.2
  | cons d s =>
    rw [templateChars_cons] at h
    split at h
    · exact absurd (Option.some.inj h).symm other.1
    · exact h

theorem getLast?_templateChars (s : List Char) : (templateChars s).getLast? = s.getLast? := by
  induction s using templateChars.induct with
  | case1 => rfl
  | case2 rest ih => simp [templateChars, List.getLast?_cons, ih]
  | case3 rest ih => simp [templateChars, List.getLast?_cons, ih]
  | case4 rest ih => simp [templateChars, List.getLast?_cons, ih]
  | case5 c rest substitution backslash mark ih =>
    rw [templateChars.eq_5 _ _ substitution backslash mark, List.getLast?_cons, ih,
      ← List.getLast?_cons]

theorem mem_templateChars {s : List Char} {c : Char} (h : c ∈ templateChars s) :
    c ∈ s ∨ c = '\\' := by
  induction s using templateChars.induct with
  | case1 => cases h
  | case2 rest ih =>
    simp only [templateChars, List.mem_cons] at h ⊢
    tauto
  | case3 rest ih =>
    simp only [templateChars, List.mem_cons] at h ⊢
    tauto
  | case4 rest ih =>
    simp only [templateChars, List.mem_cons] at h ⊢
    tauto
  | case5 d rest substitution backslash mark ih =>
    rw [templateChars.eq_5 _ _ substitution backslash mark] at h
    simp only [List.mem_cons] at h ⊢
    tauto

/-- It does not matter whether a text is indented before or after its template is written. -/
theorem templateChars_shift (begins : Bool) (s : List Char) :
    templateChars (shift begins s) = shift begins (templateChars s) := by
  induction s using templateChars.induct generalizing begins with
  | case1 => cases begins <;> rfl
  | case2 rest ih => cases begins <;> simp [shift_cons, templateChars, ih]
  | case3 rest ih => cases begins <;> simp [shift_cons, templateChars, ih]
  | case4 rest ih => cases begins <;> simp [shift_cons, templateChars, ih]
  | case5 c rest substitution backslash mark ih =>
    -- Spaces come only after a line feed, and nothing else moves, so no brace gets behind a dollar.
    have after : ∀ more, c = '$' → shift (c == '\n') rest = '\x7b' :: more → False := by
      rintro more rfl brace
      cases rest with
      | nil => cases brace
      | cons d rest =>
        obtain ⟨rfl, -⟩ := List.cons.inj brace
        exact substitution rest rfl rfl
    have kept : templateChars (c :: shift (c == '\n') rest) =
        c :: shift (c == '\n') (templateChars rest) := by
      rw [templateChars.eq_5 _ _ after backslash mark, ih]
    rw [templateChars.eq_5 _ _ substitution backslash mark, shift_cons, shift_cons]
    split
    · simp [templateChars_plain, kept]
    · exact kept

/-- Indentation moves the lines of the text that a template holds. -/
theorem hanging_templateLiteral {s : String} (h : IsSolid s) (t : String) :
    hanging (templateLiteral s ++ t) = templateLiteral (hanging s) ++ hanging t := by
  have within : endsLine false (templateChars s.toList) = false := by
    rw [endsLine, getLast?_templateChars]
    exact endsLine_of_isSolid h false
  apply String.toList_injective
  simp only [hanging, templateLiteral, String.toList_ofList, String.toList_append,
    List.cons_append, List.append_assoc, templateChars_shift]
  rw [shift_false_cons (by decide), shift_append, within, List.nil_append,
    shift_false_cons (by decide), List.nil_append]

theorem dropReturns_templateChars (s : List Char) :
    dropReturns (templateChars s) = templateChars (dropReturns s) := by
  induction s using templateChars.induct with
  | case1 => rfl
  | case2 rest ih =>
    rw [templateChars, dropReturns_cons (by simp), dropReturns_cons (by simp),
      dropReturns_cons (by simp), ih, dropReturns_cons (by simp), dropReturns_cons (by simp),
      templateChars]
  | case3 rest ih =>
    rw [templateChars, dropReturns_cons (by simp), dropReturns_cons (by simp), ih,
      dropReturns_cons (by simp), templateChars]
  | case4 rest ih =>
    rw [templateChars, dropReturns_cons (by simp), dropReturns_cons (by simp), ih,
      dropReturns_cons (by simp), templateChars]
  | case5 c rest substitution backslash mark ih =>
    rw [templateChars.eq_5 _ _ substitution backslash mark]
    by_cases pair : c = '\r' ∧ rest.head? = some '\n'
    · obtain ⟨rfl, feed⟩ := pair
      obtain ⟨more, rfl⟩ := List.head?_eq_some_iff.mp feed
      rw [templateChars_plain (by decide) (by decide) (by decide), dropReturns_cons (by simp)] at ih
      rw [templateChars_plain (by decide) (by decide) (by decide), dropReturns_pair, ih,
        dropReturns_pair, dropReturns_cons (by simp)]
    · have apart : c = '\r' → (templateChars rest).head? ≠ some '\n' := by
        intro ret feed
        have first : (templateChars rest ++ ['\x60']).head? = some '\n' := by
          rw [List.head?_append, feed, Option.some_or]
        exact pair ⟨ret, head?_templateChars (by decide) first⟩
      -- Only a carriage return goes, so no brace gets behind a dollar.
      have closed : ∀ more, c = '$' → dropReturns rest = '\x7b' :: more → False := by
        rintro more rfl brace
        have first : rest.head? = some '\x7b' :=
          head?_of_dropReturns (by rw [brace]; rfl) (by decide)
        obtain ⟨after, rfl⟩ := List.head?_eq_some_iff.mp first
        exact substitution after rfl rfl
      rw [dropReturns_cons apart, ih, dropReturns_cons fun ret feed => pair ⟨ret, feed⟩,
        templateChars.eq_5 _ _ closed backslash mark]

theorem isSolid_templateLiteral (s : String) : IsSolid (templateLiteral s) := by
  refine ⟨'\x60' :: templateChars s.toList, '\x60', ?_, by decide⟩
  rw [templateLiteral, String.toList_ofList]

/-- A template loses the carriage returns that its text loses. -/
theorem unreturned_templateLiteral (s : String) :
    unreturned (templateLiteral s) = templateLiteral (unreturned s) := by
  have mark : dropReturns ['\x60'] = ['\x60'] := rfl
  apply String.toList_injective
  simp only [unreturned, templateLiteral, String.toList_ofList, List.cons_append]
  rw [dropReturns_cons (by simp), dropReturns_append (by simp), mark, dropReturns_templateChars]

end GraphqlCrud.Script
