import Mathlib.Data.List.Basic
import GraphqlCrud.Proofs.Toml.Numbers
/-!
What stands without quotes is taken from the text as a whole and told by its form: no date is taken
for a number.
-/
namespace GraphqlCrud.Toml

open Text

/-! Dates and times -/

theorem fixedDigits?_append {count n : Nat} {s : List Char} (h : Counts count s n)
    (rest : List Char) : fixedDigits? count (s ++ rest) = some (n, rest) := by
  obtain ⟨rfl, digits, rfl⟩ := h
  have all : s.all Char.isDigit = true := List.all_eq_true.mpr digits
  rw [fixedDigits?, List.take_left, List.drop_left, all]
  simp [numberOf]

@[simp] theorem expect?_self (c : Char) (s : List Char) : expect? c (c :: s) = some s := by
  simp [expect?]

theorem date?_append {d : List Char} (h : DateText d) (rest : List Char) :
    date? (d ++ rest) = some rest := by
  obtain ⟨hy, hm, hd, month_le, day_le⟩ := h
  simp only [date?, List.append_assoc, List.cons_append, fixedDigits?_append hy,
    fixedDigits?_append hm, fixedDigits?_append hd, expect?_self, Option.bind_eq_bind,
    Option.bind_some]
  rw [if_pos ⟨month_le.1, month_le.2, day_le⟩]

/-- What cannot go on with a time of day. -/
def EndsTime (rest : List Char) : Prop := ∀ c ∈ rest.head?, c.isDigit = false ∧ c ≠ ':' ∧ c ≠ '.'

theorem seconds?_append {s : List Char} (h : SecondsText s) {rest : List Char}
    (ends : EndsTime rest) : seconds? (s ++ rest) = some rest := by
  have unpointed : secondFraction? rest = some rest := by
    unfold secondFraction?
    split
    · exact absurd rfl (ends '.' rfl).2.2
    · rfl
  cases h with
  | none =>
    rw [List.nil_append]
    unfold seconds?
    split
    · exact absurd rfl (ends ':' rfl).2.1
    · rfl
  | whole h le =>
    simp only [seconds?, List.cons_append, fixedDigits?_append h, Option.bind_eq_bind,
      Option.bind_some]
    rw [if_pos le, unpointed]
  | @parts s f second h le digits some =>
    simp only [seconds?, List.cons_append, List.append_assoc, fixedDigits?_append h,
      Option.bind_eq_bind, Option.bind_some, secondFraction?]
    rw [if_pos le, span_append digits fun c mem => (ends c mem).1]
    simp [some]

theorem time?_append {t : List Char} (h : TimeText t) {rest : List Char} (ends : EndsTime rest) :
    time? (t ++ rest) = some rest := by
  obtain ⟨hh, hm, le, seconds⟩ := h
  simp only [time?, List.append_assoc, List.cons_append, fixedDigits?_append hh,
    fixedDigits?_append hm, expect?_self, Option.bind_eq_bind, Option.bind_some]
  rw [if_pos le, seconds?_append seconds ends]

theorem OffsetText.endsTime {o : List Char} (h : OffsetText o) : EndsTime o := by
  rintro c mem
  rcases h with ⟨rfl | rfl⟩ | ⟨rfl | rfl, -, -, -⟩
  all_goals
    cases mem
    decide

theorem isOffset_of_text {o : List Char} (h : OffsetText o) : isOffset o = true := by
  cases h with
  | zero h => rcases h with rfl | rfl <;> rfl
  | @shifted sign h m hour minute signs hh hm le =>
    have last := fixedDigits?_append hm []
    rw [List.append_nil] at last
    rcases signs with rfl | rfl
    all_goals simp [isOffset, fixedDigits?_append hh, last, le]

theorem endsTime_nil : EndsTime [] := nofun

theorem endsTime_offset {o : List Char} (h : o = [] ∨ OffsetText o) : EndsTime o :=
  h.elim (fun none => none ▸ endsTime_nil) OffsetText.endsTime

theorem TimeText.exists_head {t : List Char} (h : TimeText t) :
    ∃ a b r, t = a :: b :: ':' :: r ∧ a.isDigit = true ∧ b.isDigit = true := by
  obtain ⟨⟨two, digits, -⟩, -, -, -⟩ := h
  obtain ⟨a, b, rfl⟩ := List.length_eq_two.mp two
  simp only [List.forall_mem_cons] at digits
  exact ⟨a, b, _, rfl, digits.1, digits.2.1⟩

theorem date?_of_time {t : List Char} (h : TimeText t) (rest : List Char) :
    date? (t ++ rest) = none := by
  obtain ⟨a, b, r, rfl, -⟩ := h.exists_head
  have none : fixedDigits? 4 (a :: b :: ':' :: r ++ rest) = none := by
    have colon : Char.isDigit ':' = false := rfl
    simp [fixedDigits?, colon]
  rw [date?, none]
  rfl

theorem isMoment_of_text {s : List Char} (h : MomentText s) : isMoment s = true := by
  cases h with
  | date h =>
    have read := date?_append h []
    rw [List.append_nil] at read
    rw [isMoment, read]
  | time h =>
    have undated := date?_of_time h []
    have read := time?_append h endsTime_nil
    rw [List.append_nil] at undated read
    rw [isMoment, undated, read]
    rfl
  | @both d t o c date between time offset =>
    have separated : isDateTimeSeparator c = true := by
      rcases between with rfl | rfl | rfl <;> rfl
    simp only [isMoment, date?_append date, separated, Bool.true_and,
      time?_append time (endsTime_offset offset)]
    split
    case h_1 => rfl
    case h_2 some ne same =>
      cases same
      exact isOffset_of_text (offset.resolve_left ne)
    case h_3 none => cases none

/-- The first two characters are digits, and so are all before the first hyphen or colon. -/
def StartsMoment (s : List Char) : Prop :=
  ∃ a b r c t, s = a :: b :: r ++ c :: t ∧ (∀ d ∈ a :: b :: r, d.isDigit = true) ∧
    (c = '-' ∨ c = ':')

theorem StartsMoment.append {s : List Char} (h : StartsMoment s) (rest : List Char) :
    StartsMoment (s ++ rest) := by
  obtain ⟨a, b, r, c, t, rfl, digits, mark⟩ := h
  exact ⟨a, b, r, c, t ++ rest, by simp, digits, mark⟩

theorem DateText.starts {d : List Char} (h : DateText d) : StartsMoment d := by
  cases h with
  | @mk y m d year month day hy =>
    match y, hy.length, hy.digits with
    | [a, b, c, d], _, digits => exact ⟨a, b, [c, d], '-', _, rfl, digits, .inl rfl⟩

theorem TimeText.starts {t : List Char} (h : TimeText t) : StartsMoment t := by
  obtain ⟨a, b, r, rfl, ha, hb⟩ := h.exists_head
  exact ⟨a, b, [], ':', r, rfl, by simp [ha, hb], .inr rfl⟩

theorem MomentText.starts {s : List Char} (h : MomentText s) : StartsMoment s := by
  cases h with
  | date h => exact h.starts
  | time h => exact h.starts
  | both h => exact h.starts.append _

namespace StartsMoment

variable {s : List Char}

theorem startsDigit (h : StartsMoment s) : StartsWith Char.isDigit s := by
  obtain ⟨a, b, r, c, t, rfl, digits, -⟩ := h
  exact ⟨a, _, rfl, digits a List.mem_cons_self⟩

theorem not_isInteger (h : StartsMoment s) : isInteger s = false := by
  have unmarked : ∀ c t, s = '0' :: c :: t → c ≠ 'x' ∧ c ≠ 'o' ∧ c ≠ 'b' := by
    obtain ⟨a, b, r, c, t, rfl, digits, -⟩ := h
    rintro _ _ ⟨⟩
    have digit := digits b (by simp)
    exact ⟨ne_of_apply digit rfl, ne_of_apply digit rfl,
      ne_of_apply digit rfl⟩
  have unsign : unsigned s = s := unsigned_append (.inl rfl) h.startsDigit
  rw [isInteger_eq unmarked, unsign]
  obtain ⟨a, b, r, c, t, rfl, digits, mark⟩ := h
  have dropped : (a :: b :: r ++ c :: t).dropWhile Char.isDigit = c :: t := by
    rw [List.dropWhile_append_of_pos digits]
    rcases mark with rfl | rfl <;> rfl
  refine isDecimal_eq_false dropped fun same => ?_
  rcases mark with rfl | rfl <;> cases same

theorem not_isFloat (h : StartsMoment s) : isFloat s = false := by
  have unsign : unsigned s = s := unsigned_append (.inl rfl) h.startsDigit
  obtain ⟨a, b, r, c, t, rfl, digits, mark⟩ := h
  have digit := digits a List.mem_cons_self
  have left : dropDigits? (a :: b :: r ++ c :: t) = some (c :: t) := by
    have spanned : (a :: b :: r ++ c :: t).span (fun c => c.isDigit || c == '_') =
        (a :: b :: r, c :: t) := by
      refine span_append (fun d mem => by rw [digits d mem, Bool.true_or]) ?_
      rcases mark with rfl | rfl
      all_goals
        rintro d ⟨⟩
        rfl
    unfold dropDigits?
    rw [spanned]
    simp [digit]
  have whole : dropWhole? (a :: b :: r ++ c :: t) = none ∨
      dropWhole? (a :: b :: r ++ c :: t) = some (c :: t) := by
    rw [dropWhole?, left]
    exact ite_eq_or_eq _ _ _
  have remains : ((dropWhole? (a :: b :: r ++ c :: t)).bind dropFraction?).bind dropExponent? ≠
      some [] := by
    rcases whole with whole | whole <;> rw [whole]
    · exact nofun
    · rcases mark with rfl | rfl <;> exact nofun
  have infinite := ne_of_apply digit (d := 'i') rfl
  have undefined := ne_of_apply digit (d := 'n') rfl
  rw [isFloat, unsign, beq_false_of_ne remains]
  simp [infinite, undefined]

end StartsMoment

/-! Words -/

theorem valueOfWord?_of_text {s : List Char} {v : Value} (h : WordText s v) :
    valueOfWord? s = some v := by
  cases h with
  | yes => rfl
  | no => rfl
  | integer h =>
    have integer := isInteger_of_text h
    have ne_true : s ≠ ['t', 'r', 'u', 'e'] := by rintro rfl; cases integer
    have ne_false : s ≠ ['f', 'a', 'l', 's', 'e'] := by rintro rfl; cases integer
    rw [valueOfWord?, if_neg ne_true, if_neg ne_false, if_pos integer]
  | float h =>
    have float := isFloat_of_text h
    have ne_true : s ≠ ['t', 'r', 'u', 'e'] := by rintro rfl; cases float
    have ne_false : s ≠ ['f', 'a', 'l', 's', 'e'] := by rintro rfl; cases float
    rw [valueOfWord?, if_neg ne_true, if_neg ne_false, not_isInteger_of_float h, if_pos float]
    rfl
  | moment h =>
    have moment := isMoment_of_text h
    have ne_true : s ≠ ['t', 'r', 'u', 'e'] := by rintro rfl; cases moment
    have ne_false : s ≠ ['f', 'a', 'l', 's', 'e'] := by rintro rfl; cases moment
    rw [valueOfWord?, if_neg ne_true, if_neg ne_false, h.starts.not_isInteger,
      h.starts.not_isFloat, if_pos moment]
    rfl

/-- Nothing ends a word within the text. -/
def IsSolid (s : List Char) : Prop := ∀ c ∈ s, isWordChar c = true

instance (s : List Char) : Decidable (IsSolid s) :=
  decidable_of_iff (s.all isWordChar = true) List.all_eq_true

def delimiters : List Char := ['=', ',', '[', ']', '\x7b', '\x7d', ' ', '\t', '#', '\r', '\n']

theorem isWordChar_of_apply {p : Char → Bool} {c : Char} (h : p c = true)
    (other : delimiters.any p = false) : isWordChar c = true := by
  have apart : c ∉ delimiters := notMem_of_apply h other
  simp only [delimiters, List.mem_cons, not_or] at apart
  simp [isWordChar, apart]

namespace IsSolid

variable {s t : List Char}

theorem append (h : IsSolid s) (h' : IsSolid t) : IsSolid (s ++ t) :=
  List.forall_mem_append.mpr ⟨h, h'⟩

theorem cons {c : Char} (h : isWordChar c = true) (h' : IsSolid s) : IsSolid (c :: s) :=
  List.forall_mem_cons.mpr ⟨h, h'⟩

theorem of_digits {isDigit : Char → Bool} (h : Digits isDigit s)
    (other : delimiters.any isDigit = false) : IsSolid s := by
  intro c mem
  rcases h.eq_underscore_or c mem with rfl | digit
  · decide
  · exact isWordChar_of_apply digit other

theorem of_decimal (h : Digits Char.isDigit s) : IsSolid s := of_digits h rfl

theorem of_sign (h : IsSign s) : IsSolid s := by
  rcases h with rfl | rfl | rfl <;> decide

theorem of_integer (h : IntegerText s) : IsSolid s := by
  cases h with
  | decimal h whole => exact (of_sign h).append (of_decimal whole.digits)
  | hex h => exact .cons rfl (.cons rfl (of_digits h rfl))
  | octal h => exact .cons rfl (.cons rfl (of_digits h rfl))
  | binary h => exact .cons rfl (.cons rfl (of_digits h rfl))

theorem of_fraction (h : s = [] ∨ Fraction s) : IsSolid s := by
  rcases h with rfl | h
  · exact nofun
  · cases h with
    | mk h => exact .cons rfl (of_decimal h)

theorem of_exponent (h : s = [] ∨ Exponent s) : IsSolid s := by
  rcases h with rfl | ⟨rfl | rfl, signs, h⟩
  · exact nofun
  all_goals exact .cons rfl ((of_sign signs).append (of_decimal h))

theorem of_float (h : FloatText s) : IsSolid s := by
  cases h with
  | number h whole fraction exponent =>
    exact (of_sign h).append ((of_decimal whole.digits).append
      ((of_fraction fraction).append (of_exponent exponent)))
  | infinite h => exact (of_sign h).append (by decide)
  | undefined h => exact (of_sign h).append (by decide)

theorem of_run (h : ∀ c ∈ s, c.isDigit = true) : IsSolid s :=
  fun c mem => isWordChar_of_apply (h c mem) rfl

theorem of_counts {count n : Nat} (h : Counts count s n) : IsSolid s := of_run h.digits

theorem of_date (h : DateText s) : IsSolid s := by
  obtain ⟨hy, hm, hd, -, -⟩ := h
  exact (of_counts hy).append
    (.cons rfl ((of_counts hm).append (.cons rfl (of_counts hd))))

theorem of_seconds (h : SecondsText s) : IsSolid s := by
  cases h with
  | none => exact nofun
  | whole h => exact .cons rfl (of_counts h)
  | parts h _ digits =>
    exact .cons rfl ((of_counts h).append (.cons rfl (of_run digits)))

theorem of_time (h : TimeText s) : IsSolid s := by
  obtain ⟨hh, hm, -, seconds⟩ := h
  exact (of_counts hh).append (.cons rfl ((of_counts hm).append (of_seconds seconds)))

theorem of_offset (h : s = [] ∨ OffsetText s) : IsSolid s := by
  rcases h with rfl | ⟨rfl | rfl⟩ | ⟨rfl | rfl, hh, hm, -⟩
  · exact nofun
  · decide
  · decide
  all_goals exact .cons rfl ((of_counts hh).append (.cons rfl (of_counts hm)))

end IsSolid

/-- What may follow a value: blanks, and behind them the end of the text or of the line, a comment,
or a mark of the array or table that the value is in. -/
inductive EndsValue : List Char → Prop where
  | blank {c : Char} {rest : List Char} (h : c = ' ' ∨ c = '\t') (behind : EndsValue rest) :
    EndsValue (c :: rest)
  | stop {rest : List Char} (h : ∀ c ∈ rest.head?, c ∈ [',', ']', '\x7d', '#', '\r', '\n']) :
    EndsValue rest

namespace EndsValue

variable {rest : List Char}

theorem head (h : EndsValue rest) :
    ∀ c ∈ rest.head?, c ∈ [' ', '\t', ',', ']', '\x7d', '#', '\r', '\n'] := by
  intro c mem
  cases h with
  | blank h =>
    cases mem
    rcases h with rfl | rfl <;> decide
  | stop h => exact List.mem_cons_of_mem _ (List.mem_cons_of_mem _ (h c mem))

theorem not_isWordChar (h : EndsValue rest) : ∀ c ∈ rest.head?, isWordChar c = false := by
  intro c mem
  have other : [' ', '\t', ',', ']', '\x7d', '#', '\r', '\n'].any isWordChar = false := rfl
  exact Bool.eq_false_iff.mpr (List.any_eq_false.mp other c (h.head c mem))

/-- No digit follows a blank. -/
theorem not_isDigit {c : Char} (h : EndsValue (' ' :: c :: rest)) : c.isDigit = false := by
  have other : [' ', '\t', ',', ']', '\x7d', '#', '\r', '\n'].any Char.isDigit = false := rfl
  cases h with
  | blank _ behind =>
    exact Bool.eq_false_iff.mpr (List.any_eq_false.mp other c (behind.head c rfl))
  | stop h => exact absurd (h ' ' rfl) (by decide)

end EndsValue

theorem takeWord_solid {s rest : List Char} (h : IsSolid s) (ends : EndsValue rest) :
    takeWord (s ++ rest) = (s, rest) := by
  rw [takeWord, span_append h ends.not_isWordChar]
  simp only []
  split
  · rw [ends.not_isDigit]
    rfl
  · rfl

theorem takeWord_dated {d t rest : List Char} (date : DateText d)
    (starts : StartsWith Char.isDigit t) (h : IsSolid t) (ends : EndsValue rest) :
    takeWord (d ++ ' ' :: t ++ rest) = (d ++ ' ' :: t, rest) := by
  have dated : date? d = some [] := by simpa using date?_append date []
  have spaced : (d ++ ' ' :: (t ++ rest)).span isWordChar = (d, ' ' :: (t ++ rest)) := by
    refine span_append (IsSolid.of_date date) ?_
    rintro c ⟨⟩
    rfl
  have timed := span_append h ends.not_isWordChar
  obtain ⟨c, more, rfl, digit⟩ := starts
  rw [List.append_assoc, List.cons_append, takeWord, spaced]
  simp only [dated, List.cons_append, digit, if_true]
  rw [← List.cons_append, timed]

theorem takeWord_append {s rest : List Char} {v : Value} (h : WordText s v)
    (ends : EndsValue rest) : takeWord (s ++ rest) = (s, rest) := by
  cases h with
  | yes => exact takeWord_solid (by decide) ends
  | no => exact takeWord_solid (by decide) ends
  | integer h => exact takeWord_solid (.of_integer h) ends
  | float h => exact takeWord_solid (.of_float h) ends
  | moment h =>
    cases h with
    | date h => exact takeWord_solid (.of_date h) ends
    | time h => exact takeWord_solid (.of_time h) ends
    | both date between time offset =>
      have solid := (IsSolid.of_time time).append (.of_offset offset)
      rcases between with rfl | rfl | rfl
      · exact takeWord_solid ((IsSolid.of_date date).append (.cons rfl solid)) ends
      · exact takeWord_solid ((IsSolid.of_date date).append (.cons rfl solid)) ends
      · exact takeWord_dated date (time.starts.startsDigit.append _) solid ends

end GraphqlCrud.Toml
