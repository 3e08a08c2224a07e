import GraphqlCrud.Proofs.Toml.Strings
import GraphqlCrud.Proofs.Toml.Words
/-!
White space, keys, strings and words are read as they are written, up to what may follow them.
-/
namespace GraphqlCrud.Toml

open Text

/-! White space and comments -/

theorem skipBlanks_append {a : List Char} (h : IsBlanks a) (s : List Char) :
    skipBlanks (a ++ s) = skipBlanks s := by
  refine List.dropWhile_append_of_pos fun c mem => ?_
  rcases h c mem with rfl | rfl <;> rfl

theorem skipBlanks_cons {c : Char} (h : isTomlBlank c = false) (s : List Char) :
    skipBlanks (c :: s) = c :: s :=
  List.dropWhile_cons_of_neg (by simp [h])

theorem skipFiller_blank {c : Char} (h : c = ' ' ∨ c = '\t') (s : List Char) :
    skipFiller false (c :: s) = skipFiller false s := by
  rcases h with rfl | rfl <;> rfl

theorem skipFiller_break {b : List Char} (h : LineBreak b) (inComment : Bool) (s : List Char) :
    skipFiller inComment (b ++ s) = skipFiller false s := by
  cases h <;> rfl

theorem skipFiller_plain {s : List Char} (h : ∀ c ∈ s, isPlain c = true) (rest : List Char) :
    skipFiller true (s ++ rest) = skipFiller true rest := by
  induction s with
  | nil => rfl
  | cons c s ih =>
    obtain ⟨plain, later⟩ := List.forall_mem_cons.mp h
    obtain ⟨feed, ret⟩ := ne_break_of_isPlain plain
    rw [List.cons_append, skipFiller] <;> simp_all

theorem skipFiller_comment {c : List Char} (h : Comment c) (rest : List Char) :
    skipFiller false (c ++ rest) = skipFiller true rest := by
  cases h with
  | mk plain => exact skipFiller_plain plain rest

theorem skipFiller_append {f : List Char} (h : Filler f) (s : List Char) :
    skipFiller false (f ++ s) = skipFiller false s := by
  induction h with
  | none => rfl
  | blank h _ ih => rw [List.cons_append, skipFiller_blank h, ih]
  | line h _ ih => rw [List.append_assoc, skipFiller_break h, ih]
  | comment h ends _ ih =>
    rw [List.append_assoc, skipFiller_comment h, List.append_assoc, skipFiller_break ends, ih]

theorem skipFiller_cons {c : Char} (h : c ∉ [' ', '\t', '\n', '\r', '#']) (s : List Char) :
    skipFiller false (c :: s) = some (c :: s) := by
  simp only [List.mem_cons, List.not_mem_nil, or_false, not_or] at h
  rw [skipFiller] <;> simp_all [isTomlBlank]

theorem Filler.of_blanks {a : List Char} (h : IsBlanks a) : Filler a := by
  induction a with
  | nil => exact .none
  | cons c a ih =>
    obtain ⟨blank, later⟩ := List.forall_mem_cons.mp h
    exact .blank blank (ih later)

theorem skipFiller_remainder {r : List Char} (h : Remainder r) : skipFiller false r = some [] := by
  cases h with
  | blanks h =>
    have skipped := skipFiller_append (.of_blanks h) []
    rwa [List.append_nil] at skipped
  | comment h comment =>
    rw [skipFiller_append (.of_blanks h)]
    have skipped := skipFiller_comment comment []
    rwa [List.append_nil] at skipped

theorem lineEnd_break {b : List Char} (h : LineBreak b) (inComment : Bool) (s : List Char) :
    lineEnd inComment (b ++ s) = some s := by
  cases h <;> rfl

theorem lineEnd_plain {s : List Char} (h : ∀ c ∈ s, isPlain c = true) (rest : List Char) :
    lineEnd true (s ++ rest) = lineEnd true rest := by
  induction s with
  | nil => rfl
  | cons c s ih =>
    obtain ⟨plain, later⟩ := List.forall_mem_cons.mp h
    obtain ⟨feed, ret⟩ := ne_break_of_isPlain plain
    rw [List.cons_append, lineEnd] <;> simp_all

theorem lineEnd_blanks {a : List Char} (h : IsBlanks a) (s : List Char) :
    lineEnd false (a ++ s) = lineEnd false s := by
  induction a with
  | nil => rfl
  | cons c a ih =>
    obtain ⟨rfl | rfl, later⟩ := List.forall_mem_cons.mp h <;> exact ih later

/-- What ends a line also ends it behind a comment. -/
theorem lineEnd_append {r rest more : List Char} (h : Remainder r)
    (ends : ∀ inComment, lineEnd inComment rest = some more) :
    lineEnd false (r ++ rest) = some more := by
  cases h with
  | blanks h => rw [lineEnd_blanks h, ends]
  | comment h comment =>
    rw [List.append_assoc, lineEnd_blanks h]
    cases comment with
    | mk plain => exact (lineEnd_plain plain rest).trans (ends true)

/-! The first characters -/

/-- Bare keys and keys between quotes. -/
def isKeyStart (c : Char) : Bool := isBareKeyChar c || c == '"' || c == '\''

/-- Words begin with a letter, a digit or a sign. -/
def isWordStart (c : Char) : Bool := c.isAlphanum || c == '+' || c == '-'

/-- Keys and values. -/
def isOpening (c : Char) : Bool := isWordChar c || c == '[' || c == '\x7b'

theorem isOpening_of_apply {p : Char → Bool} (other : delimiters.any p = false) (c : Char)
    (h : p c = true) : isOpening c = true := by
  simp [isOpening, isWordChar_of_apply h other]

theorem KeyPart.starts {s : List Char} {k : String} (h : KeyPart s k) :
    StartsWith isKeyStart s := by
  cases h with
  | bare h some =>
    obtain ⟨c, t, rfl⟩ := List.exists_cons_of_ne_nil some
    exact ⟨c, t, rfl, by simp [isKeyStart, h c List.mem_cons_self]⟩
  | _ => exact ⟨_, _, rfl, rfl⟩

theorem Key.starts {s : List Char} {path : List String} (h : Key s path) :
    StartsWith isKeyStart s := by
  cases h with
  | single h => exact h.starts
  | dotted h => exact h.starts.append _

theorem Key.opens {s : List Char} {path : List String} (h : Key s path) :
    StartsWith isOpening s :=
  h.starts.mono (isOpening_of_apply rfl)

theorem isWordStart_of_isDigit {c : Char} (h : c.isDigit = true) : isWordStart c = true := by
  simp [isWordStart, Char.isAlphanum, h]

theorem startsWith_sign {sign s : List Char} (signs : IsSign sign)
    (h : StartsWith isWordStart s) : StartsWith isWordStart (sign ++ s) := by
  rcases signs with rfl | rfl | rfl
  · exact h
  all_goals exact ⟨_, _, rfl, rfl⟩

theorem WordText.starts {s : List Char} {v : Value} (h : WordText s v) :
    StartsWith isWordStart s := by
  have ofDigit {s : List Char} (h : StartsWith Char.isDigit s) : StartsWith isWordStart s :=
    h.mono fun _ => isWordStart_of_isDigit
  cases h with
  | yes => exact ⟨_, _, rfl, rfl⟩
  | no => exact ⟨_, _, rfl, rfl⟩
  | integer h =>
    cases h with
    | decimal signs whole => exact startsWith_sign signs (ofDigit whole.starts)
    | hex | octal | binary => exact ⟨_, _, rfl, rfl⟩
  | float h =>
    cases h with
    | number signs whole => exact startsWith_sign signs (ofDigit (whole.starts.append _))
    | infinite signs | undefined signs => exact startsWith_sign signs ⟨_, _, rfl, rfl⟩
  | moment h => exact ofDigit h.starts.startsDigit

theorem ValueText.opens {s : List Char} {v : Value} (h : ValueText s v) :
    StartsWith isOpening s := by
  cases h with
  | word h => exact h.starts.mono (isOpening_of_apply rfl)
  | _ => exact ⟨_, _, rfl, rfl⟩

section Opening

variable {s : List Char} (h : StartsWith isOpening s) (rest : List Char)
include h

theorem skipFiller_opening : skipFiller false (s ++ rest) = some (s ++ rest) := by
  obtain ⟨c, t, rfl, opening⟩ := h
  exact skipFiller_cons (notMem_of_apply opening rfl) _

theorem skipBlanks_opening : skipBlanks (s ++ rest) = s ++ rest := by
  obtain ⟨c, t, rfl, opening⟩ := h
  have blank := ne_of_apply opening (d := ' ') rfl
  have tab := ne_of_apply opening (d := '\t') rfl
  exact skipBlanks_cons (by simp [isTomlBlank, blank, tab]) _

end Opening

/-! Keys -/

theorem keyPart?_append {s : List Char} {k : String} (h : KeyPart s k) {rest : List Char}
    (stops : ∀ c ∈ rest.head?, isBareKeyChar c = false) :
    keyPart? (s ++ rest) = some (k, rest) := by
  cases h with
  | bare h some =>
    obtain ⟨c, t, rfl⟩ := List.exists_cons_of_ne_nil some
    have bare := h c List.mem_cons_self
    have double (r : List Char) : c :: t ++ rest ≠ '"' :: r := fun same =>
      ne_of_apply bare rfl (List.cons.inj same).1
    have single (r : List Char) : c :: t ++ rest ≠ '\'' :: r := fun same =>
      ne_of_apply bare rfl (List.cons.inj same).1
    rw [keyPart?.eq_3 _ double single, span_append h stops]
  | basic h =>
    rw [List.cons_append, List.append_assoc, keyPart?, List.singleton_append, basicText_append h]
    rfl
  | literal h =>
    rw [List.cons_append, List.append_assoc, keyPart?, List.singleton_append, literalText_append h]
    rfl

/-- What may follow a key: blanks, and behind them a mark that is no part of a key. -/
inductive EndsKey : List Char → List Char → Prop where
  | mk {a rest : List Char} {c : Char} (blanks : IsBlanks a) (mark : c = '=' ∨ c = ']') :
    EndsKey (a ++ c :: rest) (c :: rest)

theorem Key.length_le {s : List Char} {path : List String} (h : Key s path) :
    path.length ≤ s.length := by
  induction h with
  | single h =>
    obtain ⟨c, t, rfl, -⟩ := h.starts
    simp
  | dotted h _ _ _ ih =>
    obtain ⟨c, t, rfl, -⟩ := h.starts
    simp
    omega

theorem keyPart?_blanks {s a rest : List Char} {k : String} {c : Char} (h : KeyPart s k)
    (blanks : IsBlanks a) (mark : isBareKeyChar c = false) :
    keyPart? (s ++ (a ++ c :: rest)) = some (k, a ++ c :: rest) := by
  refine keyPart?_append h ?_
  intro d mem
  cases a with
  | nil =>
    cases mem
    exact mark
  | cons b a =>
    cases mem
    rcases (List.forall_mem_cons.mp blanks).1 with rfl | rfl <;> rfl

theorem keyParts?_append {s rest more : List Char} {path : List String} (h : Key s path)
    (ends : EndsKey rest more) {supply : Nat} (enough : s.length ≤ supply) :
    keyParts? supply (s ++ rest) = some (path, more) := by
  induction h generalizing supply with
  | single h =>
    obtain ⟨c, t, rfl, -⟩ := h.starts
    obtain ⟨supply, rfl⟩ := Nat.exists_eq_succ_of_ne_zero (Nat.ne_zero_of_lt enough)
    obtain ⟨blanks, rfl | rfl⟩ := ends
    all_goals
      rw [keyParts?, keyPart?_blanks h blanks rfl]
      simp only [Option.bind_eq_bind, Option.bind_some]
      rw [skipBlanks_append blanks, skipBlanks_cons rfl]
      rfl
  | @dotted s a b r k path h before behind next ih =>
    simp only [List.length_append, List.length_cons] at enough
    obtain ⟨supply, rfl⟩ := Nat.exists_eq_succ_of_ne_zero (n := supply) (by omega)
    have room : r.length ≤ supply := by omega
    simp only [List.append_assoc, List.cons_append]
    rw [keyParts?, keyPart?_blanks h before rfl]
    simp only [Option.bind_eq_bind, Option.bind_some]
    rw [skipBlanks_append before, skipBlanks_cons rfl]
    simp only []
    rw [skipBlanks_append behind, skipBlanks_opening next.opens, ih room]
    rfl

theorem keyPath?_append {s rest more : List Char} {path : List String} (h : Key s path)
    (ends : EndsKey rest more) {depth supply : Nat} (enough : s.length ≤ supply)
    (room : s.length ≤ depth) : keyPath? depth supply (s ++ rest) = some (path, more) := by
  rw [keyPath?, keyParts?_append h ends enough]
  exact if_pos (Nat.le_trans h.length_le room)

/-! Strings and words -/

section Scalars

variable {rest : List Char}

theorem EndsValue.notQuote (h : EndsValue rest) :
    rest.head? ≠ some '"' ∧ rest.head? ≠ some '\'' := by
  constructor
  all_goals
    intro same
    exact absurd (h.head _ same) (by decide)

theorem BasicText.notQuote {s t : List Char} (h : BasicText s t) (more : List Char) :
    s = [] ∨ ∃ c r, s ++ more = c :: r ∧ c ≠ '"' := by
  cases h with
  | none => exact .inl rfl
  | glyph h =>
    right
    cases h with
    | plain _ quote => exact ⟨_, _, rfl, quote⟩
    | _ => exact ⟨_, _, rfl, by decide⟩

theorem scalar?_basic {s t : List Char} (h : BasicText s t) (ends : EndsValue rest) :
    scalar? ('"' :: (s ++ '"' :: rest)) = some (.text (String.ofList t), rest) := by
  have single (r : List Char) : s ++ '"' :: rest ≠ '"' :: '"' :: r := by
    intro same
    rcases h.notQuote ('"' :: rest) with rfl | ⟨c, r', opened, ne⟩
    · exact ends.notQuote.1 (by rw [(List.cons.inj same).2]; rfl)
    · rw [opened] at same
      exact ne (List.cons.inj same).1
  rw [scalar?.eq_3 _ single, basicText_append h]
  rfl

theorem scalar?_literal {s : List Char} (h : IsLiteral s) (ends : EndsValue rest) :
    scalar? ('\'' :: (s ++ '\'' :: rest)) = some (.text (String.ofList s), rest) := by
  have single (r : List Char) : s ++ '\'' :: rest ≠ '\'' :: '\'' :: r := by
    intro same
    cases s with
    | nil => exact ends.notQuote.2 (by rw [(List.cons.inj same).2]; rfl)
    | cons c s => exact (h c List.mem_cons_self).2 (List.cons.inj same).1
  rw [scalar?.eq_4 _ single, literalText_append h]
  rfl

theorem scalar?_basicLines {b s t q : List Char} (opening : IsOpening b s)
    (h : BasicLines .text s t) (last : q = [] ∨ IsQuotes '"' q) (ends : EndsValue rest) :
    scalar? ('"' :: '"' :: '"' :: (b ++ (s ++ (q ++ '"' :: '"' :: '"' :: rest)))) =
      some (.text (String.ofList (t ++ q)), rest) := by
  obtain ⟨more, same⟩ := exists_quote last ('"' :: '"' :: rest)
  apply scalar?_of_basicLines
  rw [same, dropFirstBreak_append opening (by decide), ← same,
    basicLines_append h last ends.notQuote.1]

theorem scalar?_literalLines {b s q : List Char} (opening : IsOpening b s)
    (h : LiteralLines s) (last : q = [] ∨ IsQuotes '\'' q) (ends : EndsValue rest) :
    scalar? ('\'' :: '\'' :: '\'' :: (b ++ (s ++ (q ++ '\'' :: '\'' :: '\'' :: rest)))) =
      some (.text (String.ofList (s ++ q)), rest) := by
  obtain ⟨more, same⟩ := exists_quote last ('\'' :: '\'' :: rest)
  apply scalar?_of_literalLines
  rw [same, dropFirstBreak_append opening (by decide), ← same,
    literalLines_append h last ends.notQuote.2]

theorem scalar?_word {s : List Char} {v : Value} (h : WordText s v) (ends : EndsValue rest) :
    scalar? (s ++ rest) = some (v, rest) := by
  have unquoted {c : Char} (other : isWordStart c = false) (r : List Char) : s ++ rest ≠ c :: r :=
    fun same => h.starts.head?_ne other rest (by rw [same]; rfl)
  rw [scalar?.eq_5 _ (fun _ => unquoted rfl _) (fun _ => unquoted rfl _) (fun _ => unquoted rfl _)
    (fun _ => unquoted rfl _), takeWord_append h ends]
  simp only [valueOfWord?_of_text h, Option.bind_eq_bind, Option.bind_some]

end Scalars

end GraphqlCrud.Toml
