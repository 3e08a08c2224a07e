import GraphqlCrud.Proofs.Json.Spelling
import GraphqlCrud.Proofs.Text.Search
/-!
Reading the tokens of a text: strings, numbers and the white space before them.
-/
namespace GraphqlCrud.Json

/-! White space -/

theorem skipSpace_space {space : List Char} (h : ∀ c ∈ space, isSpace c = true) (s : List Char) :
    skipSpace (space ++ s) = skipSpace s := by
  rw [skipSpace, List.dropWhile_append_of_pos h]
  rfl

theorem skipSpace_cons {c : Char} (h : isSpace c = false) (s : List Char) :
    skipSpace (c :: s) = c :: s :=
  List.dropWhile_cons_of_neg (by rw [h]; exact Bool.false_ne_true)

theorem Spaced.skipSpace_eq_nil {s : List Char} (h : Spaced [] s) : skipSpace s = [] := by
  cases h with
  | none space => simpa [skipSpace] using skipSpace_space space []

/-- Behind the white space stands the first token. -/
theorem Spaced.exists_skipSpace {c : Char} {t s : List Char} {tokens : List Token}
    (h : Spaced ((c :: t) :: tokens) s) (solid : isSpace c = false) :
    ∃ rest, skipSpace s = c :: (t ++ rest) ∧ Spaced tokens rest := by
  cases h with
  | token space rest =>
    refine ⟨_, ?_, rest⟩
    rw [skipSpace_space space, List.cons_append, skipSpace_cons solid]

theorem Spaced.of_append {t rest : List Char} {tokens : List Token} (h : Spaced tokens rest) :
    Spaced (t :: tokens) (t ++ rest) := by
  have unspaced : ∀ c ∈ ([] : List Char), isSpace c = true := nofun
  exact .token unspaced h

theorem Spaced.length_le {tokens : List Token} {s : List Char} (h : Spaced tokens s)
    (filled : ∀ t ∈ tokens, t ≠ []) : tokens.length ≤ s.length := by
  induction h with
  | none => exact Nat.zero_le _
  | token _ _ ih =>
    obtain ⟨first, others⟩ := List.forall_mem_cons.mp filled
    have positive := List.length_pos_iff.mpr first
    have rest := ih others
    simp only [List.length_cons, List.length_append]
    omega

/-! Strings -/

theorem exists_shortEscape {c : Char} (h : c ∈ shortEscapes) : ∃ x, shortEscape? c = some x := by
  simp only [shortEscapes, List.mem_cons, List.not_mem_nil, or_false] at h
  rcases h with rfl | rfl | rfl | rfl | rfl | rfl | rfl | rfl <;> exact ⟨_, rfl⟩

theorem exists_hexValue {c : Char} (h : isHexDigit c = true) : ∃ n, hexValue? c = some n := by
  simp only [isHexDigit, Bool.or_eq_true, Bool.and_eq_true, decide_eq_true_eq] at h
  unfold hexValue?
  split
  · exact ⟨_, rfl⟩
  · split
    · exact ⟨_, rfl⟩
    · split
      · exact ⟨_, rfl⟩
      · tauto

theorem exists_hexQuad {a b c d : Char} (h : [a, b, c, d].all isHexDigit = true) :
    ∃ n, hexQuad? a b c d = some n := by
  simp only [List.all_cons, List.all_nil, Bool.and_true, Bool.and_eq_true] at h
  obtain ⟨ha, hb, hc, hd⟩ := h
  obtain ⟨a', ea⟩ := exists_hexValue ha
  obtain ⟨b', eb⟩ := exists_hexValue hb
  obtain ⟨c', ec⟩ := exists_hexValue hc
  obtain ⟨d', ed⟩ := exists_hexValue hd
  exact ⟨_, by rw [hexQuad?, ea, eb, ec, ed]; rfl⟩

theorem ne_u_of_shortEscape {c x : Char} (h : shortEscape? c = some x) : c ≠ 'u' := by
  rintro rfl
  cases h

section Plain

variable {c : Char} (h : 0x20 ≤ c.toNat ∧ c ≠ '"' ∧ c ≠ '\\') (rest : List Char)
include h

theorem passText_plain : passText (c :: rest) = passText rest := by
  obtain ⟨visible, unquoted, unescaped⟩ := h
  rw [passText.eq_6 c rest unquoted (fun _ _ _ _ _ same => (unescaped same).elim)
    (fun _ _ same => (unescaped same).elim) (fun same => (unescaped same).elim),
    if_neg (Nat.not_lt.mpr visible)]

theorem readText_plain : readText (c :: rest) = (readText rest).push c := by
  obtain ⟨visible, unquoted, unescaped⟩ := h
  rw [readText.eq_6 c rest unquoted (fun _ _ _ _ _ same => (unescaped same).elim)
    (fun _ _ same => (unescaped same).elim) (fun same => (unescaped same).elim),
    if_neg (Nat.not_lt.mpr visible)]

end Plain

section Short

variable {c x : Char} (h : shortEscape? c = some x) (rest : List Char)
include h

theorem passText_short : passText ('\\' :: c :: rest) = passText rest := by
  rw [passText.eq_4 c rest fun _ _ _ _ _ same => (ne_u_of_shortEscape h same).elim, h]

theorem readText_short : readText ('\\' :: c :: rest) = (readText rest).push x := by
  rw [readText.eq_4 c rest fun _ _ _ _ _ same => (ne_u_of_shortEscape h same).elim, h]

end Short

/-- Passing over a string ends behind its closing quote. -/
theorem passText_glyphs (glyphs : List Glyph) (rest : List Char) :
    passText (glyphs.flatMap Glyph.chars ++ '"' :: rest) = .ok rest := by
  induction glyphs with
  | nil => exact passText_quote rest
  | cons g glyphs ih =>
    rw [List.flatMap_cons, List.append_assoc]
    cases g with
    | plain c h => exact (passText_plain h _).trans ih
    | short c h =>
      obtain ⟨x, hx⟩ := exists_shortEscape h
      exact (passText_short hx _).trans ih
    | quad a b c d h =>
      obtain ⟨n, hn⟩ := exists_hexQuad h
      rw [Glyph.chars, List.cons_append, List.cons_append, List.cons_append, List.cons_append,
        List.cons_append, List.cons_append, List.nil_append, passText, hn]
      exact ih

/-- What reading a string gives: its content with what follows it, if it has a content. -/
def readResult (rest : List Char) : Option (List Char) → TextResult
  | some content => .ok (content, rest)
  | none => .error .malformed

theorem push_readResult (x : Char) (rest : List Char) (content : Option (List Char)) :
    (readResult rest content).push x = readResult rest (content.map (x :: ·)) := by
  cases content <;> rfl

/-- Glyphs of which the first is no escape by digits do not begin like one. -/
theorem ne_quad_of_glyphs {glyphs : List Glyph} {rest more : List Char}
    (other : ∀ a b c d h rest, glyphs ≠ .quad a b c d h :: rest) :
    glyphs.flatMap Glyph.chars ++ '"' :: rest ≠ '\\' :: 'u' :: more := by
  intro same
  cases glyphs with
  | nil => cases same
  | cons g glyphs =>
    cases g with
    | plain c h => exact h.2.2 (List.cons.inj same).1
    | short c h =>
      obtain ⟨x, hx⟩ := exists_shortEscape h
      exact ne_u_of_shortEscape hx (List.cons.inj (List.cons.inj same).2).1
    | quad a b c d h => exact other a b c d h glyphs rfl

theorem pairDefect_glyphs {glyphs : List Glyph} {rest : List Char}
    (other : ∀ a b c d h rest, glyphs ≠ .quad a b c d h :: rest) :
    pairDefect (glyphs.flatMap Glyph.chars ++ '"' :: rest) = .malformed := by
  apply pairDefect.eq_4
  · simp
  · -- The closing quote comes last, and a lone backslash would be the last character.
    intro same
    have last := congrArg (fun s => '"' ∈ s) same
    simp at last
  · exact fun more => ne_quad_of_glyphs other

theorem readText_glyphs (glyphs : List Glyph) (rest : List Char) :
    readText (glyphs.flatMap Glyph.chars ++ '"' :: rest) = readResult rest (content? glyphs) := by
  induction glyphs using content?.induct with
  | case1 => rw [content?, List.flatMap_nil, List.nil_append, readText_quote, readResult]
  | case2 c h glyphs ih =>
    rw [List.flatMap_cons, List.append_assoc, Glyph.chars, List.singleton_append,
      readText_plain h, ih, push_readResult, content?]
  | case3 c h glyphs ih =>
    obtain ⟨x, hx⟩ := exists_shortEscape h
    rw [List.flatMap_cons, List.append_assoc, Glyph.chars, List.cons_append, List.singleton_append,
      readText_short hx, ih, push_readResult, content?, hx, Option.bind_eq_bind, Option.bind_some]
  | case4 a b c d h glyphs ihAfter ih =>
    obtain ⟨n, hn⟩ := exists_hexQuad h
    rw [List.flatMap_cons, List.append_assoc, Glyph.chars, List.cons_append, List.cons_append,
      List.cons_append, List.cons_append, List.cons_append, List.singleton_append, readText, hn]
    simp only [content?, hn, Option.bind_eq_bind, Option.bind_some]
    split
    · rfl
    · split
      · by_cases paired : ∃ e f g k quad more, glyphs = .quad e f g k quad :: more
        · obtain ⟨e, f, g, k, quad, more, rfl⟩ := paired
          obtain ⟨m, hm⟩ := exists_hexQuad quad
          simp only [List.flatMap_cons, Glyph.chars, List.cons_append, List.nil_append, hm,
            Option.bind_some]
          split
          · rw [ihAfter, push_readResult]
          · rfl
        · have other : ∀ e f g k quad more, glyphs ≠ .quad e f g k quad :: more :=
            fun e f g k quad more same => paired ⟨e, f, g, k, quad, more, same⟩
          split
          · next same => exact (ne_quad_of_glyphs other same).elim
          · rw [pairDefect_glyphs other]
            split
            · next same => exact (other _ _ _ _ _ _ rfl).elim
            · rfl
      · rw [ih, push_readResult]

/-! Numbers -/

/-- No digit, point or exponent follows. -/
def EndsNumber (rest : List Char) : Prop :=
  ∀ c ∈ rest.head?, c.isDigit = false ∧ c ≠ '.' ∧ c ≠ 'e' ∧ c ≠ 'E'

theorem digitRun_append {digits rest : List Char} (h : ∀ c ∈ digits, c.isDigit = true)
    (ends : ∀ c ∈ rest.head?, c.isDigit = false) : digitRun (digits ++ rest) = (digits, rest) :=
  Text.span_append h ends

theorem Digits.run (d : Digits) {rest : List Char} (ends : ∀ c ∈ rest.head?, c.isDigit = false) :
    ∃ c more, d.chars = c :: more ∧ c.isDigit = true ∧
      digitRun (c :: (more ++ rest)) = (c :: more, rest) := by
  obtain ⟨c, more, digits⟩ := List.exists_cons_of_ne_nil d.nonempty
  have run := digitRun_append d.areDigits ends
  rw [digits] at run
  exact ⟨c, more, digits, d.areDigits c (by rw [digits]; exact List.mem_cons_self), run⟩

def Exponent.value (e : Exponent) : Int :=
  if e.sign = ['-'] then -(natOfDigits e.digits.chars : Int) else natOfDigits e.digits.chars

namespace Number

/-- The power of ten that the exponent of a number stands for. -/
def power (n : Number) : Int := (n.exponent.map Exponent.value).getD 0

/-- What reading the number objects to. -/
def fault (n : Number) : Option Defect :=
  let (k, power) := significand n.whole.chars ((n.fraction.map Digits.chars).getD [])
  if exceedsDouble k (power + n.power) then some .malformed else none

end Number

namespace Number

variable {n : Number}

theorem fractionChars_of_none (h : n.fraction = none) : n.fractionChars = [] := by
  rw [fractionChars, h]
  rfl

theorem fractionChars_of_some {d : Digits} (h : n.fraction = some d) :
    n.fractionChars = '.' :: d.chars := by
  rw [fractionChars, h]
  rfl

theorem exponentChars_of_none (h : n.exponent = none) : n.exponentChars = [] := by
  rw [exponentChars, h]
  rfl

theorem exponentChars_of_some {e : Exponent} (h : n.exponent = some e) :
    n.exponentChars = e.mark :: (e.sign ++ e.digits.chars) := by
  rw [exponentChars, h]
  rfl

theorem head_exponentChars (n : Number) {rest : List Char} (ends : EndsNumber rest) :
    ∀ c ∈ (n.exponentChars ++ rest).head?, c.isDigit = false ∧ c ≠ '.' := by
  intro c hc
  cases exponent : n.exponent with
  | none =>
    rw [exponentChars_of_none exponent, List.nil_append] at hc
    exact ⟨(ends c hc).1, (ends c hc).2.1⟩
  | some e =>
    rw [exponentChars_of_some exponent] at hc
    obtain rfl := Option.some.inj hc
    rcases e.isMark with mark | mark <;> rw [mark] <;> decide

theorem head_fractionChars (n : Number) {rest : List Char} (ends : EndsNumber rest) :
    ∀ c ∈ (n.fractionChars ++ (n.exponentChars ++ rest)).head?, c.isDigit = false := by
  intro c hc
  cases fraction : n.fraction with
  | none =>
    rw [fractionChars_of_none fraction, List.nil_append] at hc
    exact (n.head_exponentChars ends c hc).1
  | some d =>
    rw [fractionChars_of_some fraction] at hc
    obtain rfl := Option.some.inj hc
    decide

end Number

theorem wholePart_append (n : Number) {rest : List Char}
    (ends : ∀ c ∈ rest.head?, c.isDigit = false) :
    wholePart (n.whole.chars ++ rest) = .ok (n.whole.chars, rest) := by
  obtain ⟨c, more, whole, -, run⟩ := n.whole.run ends
  by_cases zero : c = '0'
  · subst zero
    have alone : n.whole.chars = ['0'] := n.unpadded (by rw [whole]; rfl)
    have nothing : ∀ c ∈ ([] : List Char), c.isDigit = true := nofun
    have none := digitRun_append nothing ends
    rw [List.nil_append] at none
    rw [alone, List.singleton_append, wholePart, none]
  · rw [whole, List.cons_append, wholePart.eq_2 _ fun _ same => zero (List.cons.inj same).1, run]

theorem fractionPart_append (n : Number) {rest : List Char}
    (ends : ∀ c ∈ rest.head?, c.isDigit = false ∧ c ≠ '.') :
    fractionPart (n.fractionChars ++ rest) =
      .ok ((n.fraction.map Digits.chars).getD [], rest) := by
  cases fraction : n.fraction with
  | none =>
    rw [Number.fractionChars_of_none fraction, List.nil_append]
    apply fractionPart.eq_2
    intro s same
    exact (ends '.' (by rw [same]; rfl)).2 rfl
  | some d =>
    obtain ⟨c, more, digits, -, run⟩ := d.run fun c hc => (ends c hc).1
    rw [Number.fractionChars_of_some fraction, digits, List.cons_append, List.cons_append,
      fractionPart, run, Option.map_some, Option.getD_some, digits]

theorem exponentPart_append (e : Exponent) {rest : List Char}
    (ends : ∀ c ∈ rest.head?, c.isDigit = false) :
    exponentPart (e.sign ++ (e.digits.chars ++ rest)) = .ok (e.value, rest) := by
  obtain ⟨c, more, digits, digit, run⟩ := e.digits.run ends
  rw [digits, List.cons_append, Exponent.value, digits]
  rcases e.isSign with sign | sign | sign
  · have minus : c ≠ '-' := by
      rintro rfl
      cases digit
    have plus : c ≠ '+' := by
      rintro rfl
      cases digit
    rw [sign, List.nil_append, exponentPart.eq_3 _ (fun _ same => minus (List.cons.inj same).1)
      fun _ same => plus (List.cons.inj same).1, run]
    rfl
  · rw [sign, List.singleton_append, exponentPart, run]
    rfl
  · rw [sign, List.singleton_append, exponentPart, run]
    rfl

theorem number_body (n : Number) {rest : List Char} (ends : EndsNumber rest) :
    number (n.body ++ rest) = .ok (n.fault, rest) := by
  have whole := wholePart_append n (n.head_fractionChars ends)
  have fraction := fractionPart_append n (n.head_exponentChars ends)
  simp only [Number.body, List.append_assoc, number, whole, fraction, bind, Except.bind]
  cases exponent : n.exponent with
  | none =>
    have power : n.power = 0 := by rw [Number.power, exponent]; rfl
    rw [Number.exponentChars_of_none exponent, List.nil_append, Number.fault, power]
    split
    · next other _ => exact ((ends 'e' rfl).2.2.1 rfl).elim
    · next other _ => exact ((ends 'E' rfl).2.2.2 rfl).elim
    · rfl
  | some e =>
    have power : n.power = e.value := by rw [Number.power, exponent]; rfl
    have part := exponentPart_append e fun c hc => (ends c hc).1
    rw [Number.exponentChars_of_some exponent, List.cons_append, List.append_assoc, Number.fault,
      power]
    rcases e.isMark with mark | mark
    · simp only [mark, part]
      rfl
    · simp only [mark, part]
      rfl

end GraphqlCrud.Json
