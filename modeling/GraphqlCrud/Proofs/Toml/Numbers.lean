import GraphqlCrud.Proofs.Text.Search
import GraphqlCrud.Proofs.Toml.Spelling
/-!
Numbers are known by their form, and those with a fraction or an exponent are taken for nothing
else.
-/
namespace GraphqlCrud.Toml

open Text

/-- The text is not empty, and its first character is of the given kind. -/
def StartsWith (p : Char → Bool) (s : List Char) : Prop := ∃ c t, s = c :: t ∧ p c = true

namespace StartsWith

variable {p q : Char → Bool} {s : List Char}

theorem append (h : StartsWith p s) (rest : List Char) : StartsWith p (s ++ rest) := by
  obtain ⟨c, t, rfl, start⟩ := h
  exact ⟨c, t ++ rest, rfl, start⟩

theorem mono (h : StartsWith p s) (le : ∀ c, p c = true → q c = true) : StartsWith q s := by
  obtain ⟨c, t, rfl, start⟩ := h
  exact ⟨c, t, rfl, le c start⟩

theorem head?_ne (h : StartsWith p s) {c : Char} (other : p c = false) (rest : List Char) :
    (s ++ rest).head? ≠ some c := by
  obtain ⟨d, t, rfl, start⟩ := h
  exact fun same => ne_of_apply start other (Option.some.inj same)

end StartsWith

/-! Digits -/

namespace Digits

variable {isDigit : Char → Bool} {s : List Char}

theorem starts (h : Digits isDigit s) : StartsWith isDigit s := by
  cases h with
  | one h | next h | spaced h => exact ⟨_, _, rfl, h⟩

theorem eq_underscore_or (h : Digits isDigit s) : ∀ c ∈ s, c = '_' ∨ isDigit c = true := by
  induction h with
  | one h => simpa using .inr h
  | next h _ ih => exact List.forall_mem_cons.mpr ⟨.inr h, ih⟩
  | spaced h _ ih =>
    exact List.forall_mem_cons.mpr ⟨.inr h, List.forall_mem_cons.mpr ⟨.inl rfl, ih⟩⟩

theorem isDigitRun (h : Digits isDigit s) (mark : isDigit '_' = false) :
    Toml.isDigitRun isDigit s = true := by
  induction h with
  | one h => simpa [Toml.isDigitRun] using h
  | next h rest ih =>
    obtain ⟨c, t, rfl, digit⟩ := rest.starts
    have ne := ne_of_apply digit mark
    rw [Toml.isDigitRun] <;> simp_all
  | spaced h _ ih => simp [Toml.isDigitRun, h, ih]

theorem separates_cons {c : Char} (ne : c ≠ '_') (before : Bool) (s : List Char) :
    separates isDigit before (c :: s) = separates isDigit (isDigit c) s := by
  rw [separates]
  simp [ne]

theorem separates_underscore {c : Char} (before : Bool) (s : List Char) :
    separates isDigit before ('_' :: c :: s) =
      (before && isDigit c && separates isDigit false (c :: s)) :=
  rfl

/-- Underscores in digits stand between two of them, also for a wider notion of a digit. -/
theorem separates_append {wider : Char → Bool} (h : Digits isDigit s)
    (wide : ∀ c, isDigit c = true → wider c = true) (mark : isDigit '_' = false) (before : Bool)
    (rest : List Char) : separates wider before (s ++ rest) = separates wider true rest := by
  induction h generalizing before with
  | one h =>
    rw [List.singleton_append, separates_cons (ne_of_apply h mark), wide _ h]
  | next h _ ih =>
    rw [List.cons_append, separates_cons (ne_of_apply h mark), ih]
  | spaced h more ih =>
    obtain ⟨c, t, rfl, digit⟩ := more.starts
    simp only [List.cons_append] at ih ⊢
    rw [separates_cons (ne_of_apply h mark), separates_underscore, wide _ h, wide _ digit, ih]
    rfl

end Digits

/-! Numbers -/

theorem not_isFloatMark_of_isDigit {c : Char} (h : c.isDigit = true) : isFloatMark c = false := by
  have point := ne_of_apply h (d := '.') rfl
  have lower := ne_of_apply h (d := 'e') rfl
  have upper := ne_of_apply h (d := 'E') rfl
  simp [isFloatMark, point, lower, upper]

theorem isHexDigit_of_isDigit {c : Char} (h : c.isDigit = true) : isHexDigit c = true := by
  simp [isHexDigit, h]

theorem Digits.not_any_isFloatMark {s : List Char} (h : Digits Char.isDigit s) :
    s.any isFloatMark = false := by
  rw [List.any_eq_false]
  intro c mem
  rcases h.eq_underscore_or c mem with rfl | digit
  · decide
  · simp [not_isFloatMark_of_isDigit digit]

theorem unsigned_append {sign s : List Char} (h : IsSign sign)
    (starts : StartsWith Char.isDigit s) : unsigned (sign ++ s) = s := by
  obtain ⟨c, t, rfl, digit⟩ := starts
  have plus := ne_of_apply digit (d := '+') rfl
  have minus := ne_of_apply digit (d := '-') rfl
  rcases h with rfl | rfl | rfl
  · unfold unsigned
    split <;> simp_all
  · rfl
  · rfl

/-- What follows the first digits is nothing or begins with an underscore. -/
theorem Digits.dropWhile_append {s : List Char} (h : Digits Char.isDigit s) (rest : List Char) :
    (s ++ rest).dropWhile Char.isDigit = rest.dropWhile Char.isDigit ∨
      ∃ t, (s ++ rest).dropWhile Char.isDigit = '_' :: (t ++ rest) ∧ ∀ c ∈ t, c ∈ s := by
  induction h with
  | one h => exact .inl (by rw [List.singleton_append, List.dropWhile_cons_of_pos h])
  | next h _ ih =>
    rw [List.cons_append, List.dropWhile_cons_of_pos h]
    exact ih.imp_right fun ⟨t, dropped, inside⟩ =>
      ⟨t, dropped, fun c mem => List.mem_cons_of_mem _ (inside c mem)⟩
  | @spaced c s h _ _ =>
    refine .inr ⟨s, ?_, fun c mem => List.mem_cons_of_mem _ (List.mem_cons_of_mem _ mem)⟩
    rw [List.cons_append, List.dropWhile_cons_of_pos h, List.cons_append,
      List.dropWhile_cons_of_neg (by decide)]

namespace Whole

variable {s : List Char}

theorem exists_head (h : Whole s) : ∃ c t, s = c :: t ∧ c.isDigit = true ∧ (c = '0' → t = []) := by
  obtain ⟨c, t, rfl, digit⟩ := h.digits.starts
  refine ⟨c, t, rfl, digit, ?_⟩
  rintro rfl
  exact (List.cons.inj (h.unpadded rfl)).2

theorem isDecimal (h : Whole s) : Toml.isDecimal s = true := by
  obtain ⟨c, t, rfl, digit, unpadded⟩ := h.exists_head
  by_cases zero : c = '0'
  · obtain rfl := unpadded zero
    rw [zero]
    decide
  have dropped := h.digits.dropWhile_append []
  rw [List.append_nil] at dropped
  have apart : separates isHexDigit false (c :: t) = true := by
    have whole := h.digits.separates_append (fun _ => isHexDigit_of_isDigit) rfl false []
    rwa [List.append_nil] at whole
  unfold Toml.isDecimal
  rcases dropped with dropped | ⟨t', dropped, inside⟩
  · rw [dropped]
    simp [zero]
  · have unmarked : t'.any isFloatMark = false := by
      have all := List.any_eq_false.mp h.digits.not_any_isFloatMark
      exact List.any_eq_false.mpr fun c mem => all c (inside c mem)
    rw [dropped, List.append_nil]
    simp [zero, unmarked, apart]

end Whole

/-- A number that is no decimal has something other than digits and underscores behind its first
digits, or a mark of a fraction behind its first underscore. -/
theorem isDecimal_eq_false {s r : List Char} {c : Char}
    (dropped : s.dropWhile Char.isDigit = c :: r)
    (marked : c = '_' → r.any isFloatMark = true) : isDecimal s = false := by
  have ne_zero : s ≠ ['0'] := by
    rintro rfl
    cases dropped
  unfold isDecimal
  rw [dropped, beq_false_of_ne ne_zero, Bool.false_or, Bool.and_eq_false_iff]
  right
  split
  case h_1 none => cases none
  case h_2 same =>
    cases same
    rw [marked rfl]
    rfl
  case h_3 => rfl

theorem isInteger_eq {s : List Char} (h : ∀ c t, s = '0' :: c :: t → c ≠ 'x' ∧ c ≠ 'o' ∧ c ≠ 'b') :
    isInteger s = isDecimal (unsigned s) := by
  unfold isInteger
  split <;> simp_all

theorem not_base_of_sign {sign s : List Char} (h : IsSign sign)
    (other : ∀ c t, s = '0' :: c :: t → c ≠ 'x' ∧ c ≠ 'o' ∧ c ≠ 'b') :
    ∀ c t, sign ++ s = '0' :: c :: t → c ≠ 'x' ∧ c ≠ 'o' ∧ c ≠ 'b' := by
  rcases h with rfl | rfl | rfl
  · exact other
  · exact nofun
  · exact nofun

theorem Whole.starts {s : List Char} (h : Whole s) : StartsWith Char.isDigit s := h.digits.starts

theorem isInteger_of_text {s : List Char} (h : IntegerText s) : isInteger s = true := by
  cases h with
  | @decimal sign s h whole =>
    have unmarked : ∀ c t, s = '0' :: c :: t → c ≠ 'x' ∧ c ≠ 'o' ∧ c ≠ 'b' := by
      rintro c t rfl
      cases whole.unpadded rfl
    rw [isInteger_eq (not_base_of_sign h unmarked), unsigned_append h whole.starts,
      whole.isDecimal]
  | hex h =>
    obtain ⟨c, t, rfl, -⟩ := h.starts
    exact h.isDigitRun rfl
  | octal h =>
    obtain ⟨c, t, rfl, -⟩ := h.starts
    exact h.isDigitRun rfl
  | binary h =>
    obtain ⟨c, t, rfl, -⟩ := h.starts
    exact h.isDigitRun rfl

/-! Fractions and exponents -/

/-- Neither a digit nor an underscore stands at the beginning. -/
def StopsDigits (rest : List Char) : Prop := ∀ c ∈ rest.head?, c.isDigit = false ∧ c ≠ '_'

theorem Digits.span_append {s : List Char} (h : Digits Char.isDigit s) {rest : List Char}
    (stops : StopsDigits rest) :
    (s ++ rest).span (fun c => c.isDigit || c == '_') = (s, rest) := by
  refine Text.span_append ?_ ?_
  · intro c mem
    rcases h.eq_underscore_or c mem with rfl | digit
    · decide
    · rw [digit, Bool.true_or]
  · intro c mem
    obtain ⟨digit, mark⟩ := stops c mem
    simp [digit, mark]

theorem dropDigits?_append {s : List Char} (h : Digits Char.isDigit s) {rest : List Char}
    (stops : StopsDigits rest) : dropDigits? (s ++ rest) = some rest := by
  obtain ⟨c, t, rfl, digit⟩ := h.starts
  unfold dropDigits?
  rw [h.span_append stops]
  simp [digit]

theorem dropWhole?_append {s : List Char} (h : Whole s) {rest : List Char}
    (stops : StopsDigits rest) : dropWhole? (s ++ rest) = some rest := by
  have taken : (s ++ rest).takeWhile (fun c => c.isDigit || c == '_') = s := by
    have spanned := h.digits.span_append stops
    rw [List.span_eq_takeWhile_dropWhile] at spanned
    exact (Prod.mk.inj spanned).1
  have unpadded : ¬ (s.head? = some '0' ∧ 1 < s.countP Char.isDigit) := by
    rintro ⟨zero, more⟩
    rw [h.unpadded zero] at more
    exact absurd more (by decide)
  unfold dropWhole?
  rw [taken, if_neg unpadded, dropDigits?_append h.digits stops]

theorem Exponent.stops {e : List Char} (h : e = [] ∨ Exponent e) : StopsDigits e := by
  rcases h with rfl | ⟨rfl | rfl, -, -⟩
  · exact nofun
  all_goals
    rintro c ⟨⟩
    decide

theorem Fraction.stops {f e : List Char} (h : f = [] ∨ Fraction f) (stops : StopsDigits e) :
    StopsDigits (f ++ e) := by
  rcases h with rfl | h
  · exact stops
  · cases h
    rintro c ⟨⟩
    decide

theorem dropFraction?_append {f e : List Char} (h : f = [] ∨ Fraction f)
    (exponent : e = [] ∨ Exponent e) : dropFraction? (f ++ e) = some e := by
  rcases h with rfl | ⟨h⟩
  · rcases exponent with rfl | ⟨rfl | rfl, -, -⟩ <;> rfl
  · cases h with
    | mk h => exact dropDigits?_append h (Exponent.stops exponent)

theorem dropExponent?_eq {e : List Char} (h : e = [] ∨ Exponent e) : dropExponent? e = some [] := by
  rcases h with rfl | ⟨marks, signs, h⟩
  · rfl
  · have dropped : dropDigits? (_ ++ []) = some [] := dropDigits?_append h nofun
    rw [List.append_nil] at dropped
    rcases marks with rfl | rfl
    all_goals rw [dropExponent?, unsigned_append signs h.starts, dropped]

theorem separates_fraction {f e : List Char} (h : f = [] ∨ Fraction f) :
    separates Char.isDigit true (f ++ e) = separates Char.isDigit true e := by
  rcases h with rfl | h
  · rfl
  · cases h with
    | mk h =>
      rw [List.cons_append, Digits.separates_cons (by decide),
        h.separates_append (fun _ => id) rfl]

theorem separates_exponent {e : List Char} (h : e = [] ∨ Exponent e) :
    separates Char.isDigit true e = true := by
  rcases h with rfl | ⟨marks, signs, h⟩
  · rfl
  · have apart (before : Bool) := h.separates_append (fun _ => id) rfl before []
    simp only [List.append_nil] at apart
    rcases marks with rfl | rfl
    all_goals
      rw [Digits.separates_cons (by decide)]
      rcases signs with rfl | rfl | rfl
      · exact apart _
      all_goals exact (Digits.separates_cons (by decide) _ _).trans (apart _)

/-- A fraction or an exponent begins with its mark. -/
theorem exists_mark {f e : List Char} (fraction : f = [] ∨ Fraction f)
    (exponent : e = [] ∨ Exponent e) (some : f ≠ [] ∨ e ≠ []) :
    ∃ c t, f ++ e = c :: t ∧ isFloatMark c = true := by
  rcases fraction with rfl | h
  · rcases exponent with rfl | ⟨rfl | rfl, -, -⟩
    · simp at some
    · exact ⟨_, _, rfl, rfl⟩
    · exact ⟨_, _, rfl, rfl⟩
  · cases h
    exact ⟨_, _, rfl, rfl⟩

theorem isFloat_of_text {s : List Char} (h : FloatText s) : isFloat s = true := by
  cases h with
  | @number sign s f e h whole fraction exponent some =>
    obtain ⟨mark, more, marked, isMark⟩ := exists_mark fraction exponent some
    have any : (s ++ (f ++ e)).any isFloatMark = true := by
      simp only [List.any_append, marked, List.any_cons, isMark, Bool.true_or, Bool.or_true]
    have apart : separates Char.isDigit false (s ++ (f ++ e)) = true := by
      rw [whole.digits.separates_append (fun _ => id) rfl, separates_fraction fraction,
        separates_exponent exponent]
    have dropped : ((dropWhole? (s ++ (f ++ e))).bind dropFraction?).bind dropExponent? =
        .some [] := by
      rw [dropWhole?_append whole (Fraction.stops fraction (Exponent.stops exponent)),
        Option.bind_some, dropFraction?_append fraction exponent, Option.bind_some,
        dropExponent?_eq exponent]
    rw [isFloat, unsigned_append h (whole.starts.append _), any, apart, dropped]
    simp
  | infinite h => rcases h with rfl | rfl | rfl <;> decide
  | undefined h => rcases h with rfl | rfl | rfl <;> decide

theorem not_isInteger_of_float {s : List Char} (h : FloatText s) : isInteger s = false := by
  cases h with
  | @number sign s f e h whole fraction exponent some =>
    obtain ⟨mark, more, marked, isMark⟩ := exists_mark fraction exponent some
    rw [marked]
    have unmarked : ∀ c t, s ++ mark :: more = '0' :: c :: t → c ≠ 'x' ∧ c ≠ 'o' ∧ c ≠ 'b' := by
      intro c t same
      obtain ⟨d, r, rfl, digit, unpadded⟩ := whole.exists_head
      obtain ⟨zero, same⟩ := List.cons.inj same
      obtain rfl := unpadded zero
      obtain ⟨rfl, -⟩ := List.cons.inj same
      exact ⟨ne_of_apply isMark rfl, ne_of_apply isMark rfl,
        ne_of_apply isMark rfl⟩
    have stopped : (mark :: more).dropWhile Char.isDigit = mark :: more := by
      refine List.dropWhile_cons_of_neg fun digit => ?_
      rw [not_isFloatMark_of_isDigit digit] at isMark
      cases isMark
    rw [isInteger_eq (not_base_of_sign h unmarked), unsigned_append h (whole.starts.append _)]
    rcases whole.digits.dropWhile_append (mark :: more) with dropped | ⟨t, dropped, -⟩
    · have ne_underscore : mark ≠ '_' := ne_of_apply isMark rfl
      exact isDecimal_eq_false (dropped.trans stopped) fun same => absurd same ne_underscore
    · refine isDecimal_eq_false dropped fun _ => ?_
      simp only [List.any_append, List.any_cons, isMark, Bool.true_or, Bool.or_true]
  | infinite h => rcases h with rfl | rfl | rfl <;> decide
  | undefined h => rcases h with rfl | rfl | rfl <;> decide

end GraphqlCrud.Toml
