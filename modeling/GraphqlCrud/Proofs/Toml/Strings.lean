import GraphqlCrud.Proofs.Toml.Spelling
/-!
Strings are read as they are written, whatever follows their closing quotes.
-/
namespace GraphqlCrud.Toml

@[simp] theorem push_some (c : Char) (content rest : List Char) :
    TextResult.push c (some (content, rest)) = some (c :: content, rest) := rfl

theorem ne_mark_of_shortEscape {c x : Char} (h : shortEscape? c = some x) :
    c ≠ 'x' ∧ c ≠ 'u' ∧ c ≠ 'U' := by
  refine ⟨?_, ?_, ?_⟩
  all_goals
    rintro rfl
    cases h

theorem ne_break_of_isPlain {c : Char} (h : isPlain c = true) : c ≠ '\n' ∧ c ≠ '\r' := by
  constructor
  all_goals
    rintro rfl
    revert h
    decide

theorem endsLine_of_shortEscape {c x : Char} (h : shortEscape? c = some x) (rest : List Char) :
    endsLine (c :: rest) = false := by
  unfold endsLine
  split <;> simp_all [shortEscape?]

theorem basicText_glyph {g : List Char} {x : Char} (h : Glyph g x) (rest : List Char) :
    basicText (g ++ rest) = (basicText rest).push x := by
  cases h with
  | plain h quote backslash => rw [List.singleton_append, basicText] <;> simp_all
  | short h =>
    obtain ⟨ne_x, ne_u, ne_U⟩ := ne_mark_of_shortEscape h
    simp only [List.cons_append, List.nil_append]
    rw [basicText] <;> simp_all
  | pair h => simp only [List.cons_append, List.nil_append, basicText, h]
  | four h => simp only [List.cons_append, List.nil_append, basicText, h]
  | eight h => simp only [List.cons_append, List.nil_append, basicText, h]

theorem basicLines_glyph {mode : LineMode} {g : List Char} {x : Char} (h : Glyph g x)
    (kept : mode = .joining → g ≠ [' '] ∧ g ≠ ['\t']) (rest : List Char) :
    basicLines mode (g ++ rest) = (basicLines .text rest).push x := by
  cases h with
  | plain h quote backslash =>
    obtain ⟨ne_feed, ne_return⟩ := ne_break_of_isPlain h
    rw [List.singleton_append, basicLines] <;> simp_all
  | short h =>
    obtain ⟨ne_x, ne_u, ne_U⟩ := ne_mark_of_shortEscape h
    have stays := endsLine_of_shortEscape h
    simp only [List.cons_append, List.nil_append]
    rw [basicLines] <;> simp_all
  | pair h => simp only [List.cons_append, List.nil_append, basicLines, h]
  | four h => simp only [List.cons_append, List.nil_append, basicLines, h]
  | eight h => simp only [List.cons_append, List.nil_append, basicLines, h]

theorem basicText_append {s t : List Char} (h : BasicText s t) (rest : List Char) :
    basicText (s ++ '"' :: rest) = some (t, rest) := by
  induction h with
  | none => exact basicText_quote rest
  | glyph h _ ih => rw [List.append_assoc, basicText_glyph h, ih, push_some]

theorem literalText_append {s : List Char} (h : IsLiteral s) (rest : List Char) :
    literalText (s ++ '\'' :: rest) = some (s, rest) := by
  induction s with
  | nil => exact literalText_quote rest
  | cons c s ih =>
    obtain ⟨⟨plain, quote⟩, later⟩ := List.forall_mem_cons.mp h
    rw [List.cons_append, literalText.eq_2 _ _ quote, if_pos plain, ih later, push_some]

/-! Strings of several lines -/

theorem StartsOther.append {quote : Char} {s : List Char} (h : StartsOther quote s)
    (more : List Char) : StartsOther quote (s ++ more) := by
  obtain ⟨c, rest, rfl, ne⟩ := h
  exact ⟨c, rest ++ more, rfl, ne⟩

theorem exists_quote {quote : Char} {q : List Char} (h : q = [] ∨ IsQuotes quote q)
    (rest : List Char) : ∃ more, q ++ quote :: rest = quote :: more := by
  rcases h with rfl | rfl | rfl <;> exact ⟨_, rfl⟩

theorem closing?_append {quote : Char} {q rest : List Char} (h : q = [] ∨ IsQuotes quote q)
    (other : rest.head? ≠ some quote) :
    closing? quote (q ++ quote :: quote :: quote :: rest) = some (q, rest) := by
  have stops : rest.takeWhile (· == quote) = [] := by
    cases rest with
    | nil => rfl
    | cons c rest => simp_all
  rcases h with rfl | rfl | rfl <;> simp [closing?, stops]

theorem closing?_eq_none {quote : Char} {q s : List Char} (h : IsQuotes quote q)
    (other : StartsOther quote s) : closing? quote (q ++ s) = none := by
  obtain ⟨c, rest, rfl, ne⟩ := other
  rcases h with rfl | rfl <;> simp [closing?, ne]

theorem LineBreak.eq_or_of_mem {b : List Char} (h : LineBreak b) {c : Char} (mem : c ∈ b) :
    c = '\n' ∨ c = '\r' := by
  cases h <;> simp_all [or_comm]

theorem dropFirstBreak_eq {s : List Char} (h : ∀ b rest, LineBreak b → s ≠ b ++ rest) :
    dropFirstBreak s = s := by
  unfold dropFirstBreak
  split
  · exact absurd rfl (h _ _ .feed)
  · exact absurd rfl (h _ _ .returned)
  · rfl

theorem dropFirstBreak_append {b s : List Char} (h : IsOpening b s) {quote : Char}
    (ne : quote ≠ '\n' ∧ quote ≠ '\r') (more : List Char) :
    dropFirstBreak (b ++ (s ++ quote :: more)) = s ++ quote :: more := by
  rcases h with opened | ⟨rfl, unbroken⟩
  · cases opened <;> rfl
  · rw [List.nil_append]
    refine dropFirstBreak_eq fun b rest ends same => ?_
    rcases List.append_eq_append_iff.mp same with ⟨front, split_at, behind⟩ | ⟨back, split_at, -⟩
    · cases front with
      | nil => exact unbroken b [] ends (by simpa using split_at.symm)
      | cons c front =>
        have mem : quote ∈ b := by
          rw [split_at, (List.cons.inj behind).1]
          simp
        have breaks := ends.eq_or_of_mem mem
        exact breaks.elim ne.1 ne.2
    · exact unbroken b back ends split_at

section Basic

variable {mode : LineMode} {q s t rest : List Char}

theorem basicLines_quote (unclosed : closing? '"' ('"' :: s) = none)
    (read : basicLines .text s = some (t, rest)) :
    basicLines mode ('"' :: s) = some ('"' :: t, rest) := by
  rw [basicLines, unclosed, read]
  rfl

theorem basicLines_quotes (h : IsQuotes '"' q) (other : StartsOther '"' s)
    (read : basicLines .text s = some (t, rest)) :
    basicLines mode (q ++ s) = some (q ++ t, rest) := by
  have one : closing? '"' ('"' :: s) = none := closing?_eq_none (.inl rfl) other
  rcases h with rfl | rfl
  · exact basicLines_quote one read
  · exact basicLines_quote (closing?_eq_none (.inr rfl) other) (basicLines_quote one read)

theorem basicLines_closing (h : q = [] ∨ IsQuotes '"' q) (other : rest.head? ≠ some '"') :
    basicLines mode (q ++ '"' :: '"' :: '"' :: rest) = some (q, rest) := by
  have closed := closing?_append h other
  obtain ⟨more, same⟩ := exists_quote h ('"' :: '"' :: rest)
  rw [same] at closed ⊢
  exact basicLines_closed closed mode

theorem endsLine_append {a b : List Char} (h : IsBlanks a) (ends : LineBreak b) (s : List Char) :
    endsLine (a ++ (b ++ s)) = true := by
  induction a with
  | nil => cases ends <;> rfl
  | cons c a ih =>
    obtain ⟨blank, later⟩ := List.forall_mem_cons.mp h
    rcases blank with rfl | rfl <;> exact ih later

theorem basicLines_line {b : List Char} (h : LineBreak b)
    (read : basicLines .text s = some (t, rest)) :
    basicLines .text (b ++ s) = some (b ++ t, rest) := by
  cases h <;> simp [basicLines, read]

theorem basicLines_passed {c : Char} (h : c = ' ' ∨ c = '\t') (s : List Char) :
    basicLines .joining (c :: s) = basicLines .joining s := by
  rcases h with rfl | rfl <;> rw [basicLines] <;> simp

theorem basicLines_passedLine {b : List Char} (h : LineBreak b) (s : List Char) :
    basicLines .joining (b ++ s) = basicLines .joining s := by
  cases h <;> simp [basicLines]

theorem basicLines_backslash {c : Char} (h : endsLine (c :: s) = true) :
    basicLines mode ('\\' :: c :: s) = basicLines .joining s := by
  have ne_mark : c ≠ 'x' ∧ c ≠ 'u' ∧ c ≠ 'U' := by
    refine ⟨?_, ?_, ?_⟩
    all_goals
      rintro rfl
      cases h
  rw [basicLines, if_pos h] <;> simp_all

theorem basicLines_blanks {a : List Char} (h : IsBlanks a) (s : List Char) :
    basicLines .joining (a ++ s) = basicLines .joining s := by
  induction a with
  | nil => rfl
  | cons c a ih =>
    obtain ⟨blank, later⟩ := List.forall_mem_cons.mp h
    rw [List.cons_append, basicLines_passed blank, ih later]

theorem basicLines_join {a b : List Char} (h : IsBlanks a) (ends : LineBreak b) (s : List Char) :
    basicLines mode ('\\' :: (a ++ (b ++ s))) = basicLines .joining s := by
  have ended := endsLine_append h ends s
  match a with
  | [] =>
    cases ends with
    | feed => exact basicLines_backslash ended
    | returned => exact (basicLines_backslash ended).trans (by simp [basicLines])
  | c :: a =>
    obtain ⟨-, later⟩ := List.forall_mem_cons.mp h
    rw [List.cons_append] at ended ⊢
    rw [basicLines_backslash ended, basicLines_blanks later, basicLines_passedLine ends]

theorem basicLines_append (h : BasicLines mode s t) (last : q = [] ∨ IsQuotes '"' q)
    (other : rest.head? ≠ some '"') :
    basicLines mode (s ++ (q ++ '"' :: '"' :: '"' :: rest)) = some (t ++ q, rest) := by
  induction h with
  | none => exact basicLines_closing last other
  | glyph h kept _ ih => rw [List.append_assoc, basicLines_glyph h kept, ih, push_some]; rfl
  | line h _ ih =>
    rw [List.append_assoc, List.append_assoc, basicLines_line h ih]
  | quotes h starts _ ih =>
    rw [List.append_assoc, List.append_assoc]
    exact basicLines_quotes h (starts.append _) ih
  | join h ends _ ih =>
    rw [List.cons_append, List.append_assoc, List.append_assoc, basicLines_join h ends, ih]
  | passedBlank h _ ih => rw [List.cons_append, basicLines_passed h, ih]
  | passedLine h _ ih => rw [List.append_assoc, basicLines_passedLine h, ih]

end Basic

section Literal

variable {q s rest : List Char}

theorem literalLines_quote {t : List Char} (unclosed : closing? '\'' ('\'' :: s) = none)
    (read : literalLines s = some (t, rest)) :
    literalLines ('\'' :: s) = some ('\'' :: t, rest) := by
  rw [literalLines, unclosed, read]
  rfl

theorem literalLines_quotes {t : List Char} (h : IsQuotes '\'' q) (other : StartsOther '\'' s)
    (read : literalLines s = some (t, rest)) : literalLines (q ++ s) = some (q ++ t, rest) := by
  have one : closing? '\'' ('\'' :: s) = none := closing?_eq_none (.inl rfl) other
  rcases h with rfl | rfl
  · exact literalLines_quote one read
  · exact literalLines_quote (closing?_eq_none (.inr rfl) other) (literalLines_quote one read)

theorem literalLines_closing (h : q = [] ∨ IsQuotes '\'' q) (other : rest.head? ≠ some '\'') :
    literalLines (q ++ '\'' :: '\'' :: '\'' :: rest) = some (q, rest) := by
  have closed := closing?_append h other
  obtain ⟨more, same⟩ := exists_quote h ('\'' :: '\'' :: rest)
  rw [same] at closed ⊢
  exact literalLines_closed closed

theorem literalLines_char {c : Char} (h : isPlain c = true) (other : c ≠ '\'') (s : List Char) :
    literalLines (c :: s) = (literalLines s).push c := by
  obtain ⟨-, ne_return⟩ := ne_break_of_isPlain h
  rw [literalLines] <;> simp_all

theorem literalLines_line {b t : List Char} (h : LineBreak b)
    (read : literalLines s = some (t, rest)) : literalLines (b ++ s) = some (b ++ t, rest) := by
  cases h <;> simp [literalLines, read]

theorem literalLines_append (h : LiteralLines s) (last : q = [] ∨ IsQuotes '\'' q)
    (other : rest.head? ≠ some '\'') :
    literalLines (s ++ (q ++ '\'' :: '\'' :: '\'' :: rest)) = some (s ++ q, rest) := by
  induction h with
  | none => exact literalLines_closing last other
  | char h ne _ ih => rw [List.cons_append, literalLines_char h ne, ih, push_some]; rfl
  | line h _ ih => rw [List.append_assoc, List.append_assoc, literalLines_line h ih]
  | quotes h starts _ ih =>
    rw [List.append_assoc, List.append_assoc]
    exact literalLines_quotes h (starts.append _) ih

end Literal
end GraphqlCrud.Toml
