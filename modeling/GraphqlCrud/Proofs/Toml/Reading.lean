import GraphqlCrud.Proofs.Toml.Tokens
/-!
A document is read as it is written: a text that spells statements is read into the table that the
statements describe.
-/
namespace GraphqlCrud.Toml

open Text

/-! Values -/

theorem EndsValue.of_mark {c : Char} (h : c ∈ [',', ']', '\x7d', '#', '\r', '\n'])
    (rest : List Char) : EndsValue (c :: rest) := by
  refine .stop ?_
  rintro _ ⟨⟩
  exact h

theorem EndsValue.of_break {b : List Char} (h : LineBreak b) (rest : List Char) :
    EndsValue (b ++ rest) := by
  cases h <;> exact .of_mark (by decide) _

theorem EndsValue.filler_append {f rest : List Char} (h : Filler f) (ends : EndsValue rest) :
    EndsValue (f ++ rest) := by
  induction h with
  | none => exact ends
  | blank h _ ih => exact .blank h ih
  | line h _ _ =>
    rw [List.append_assoc]
    exact .of_break h _
  | comment h _ _ _ =>
    cases h
    exact .of_mark (by decide) _

section Brackets

variable {depth supply room : Nat} {s r more rest : List Char} {v : Value}

theorem value?_scalar {c : Char} (enough : 2 * (c :: s).length ≤ supply) (rest : List Char)
    (ne : c ≠ '[' ∧ c ≠ '\x7b') :
    value? depth supply room (c :: s ++ rest) = scalar? (c :: s ++ rest) := by
  obtain ⟨supply, rfl⟩ : ∃ less, supply = less + 1 :=
    ⟨supply - 1, by rw [List.length_cons] at enough; omega⟩
  rw [List.cons_append, value?] <;> simp_all

theorem value?_array {items : List Value} (h : items? depth supply room s = some (items, rest)) :
    value? depth (supply + 1) (room + 1) ('[' :: s) = some (.array items false, rest) := by
  rw [value?, h]
  rfl

theorem value?_table {pairs : List (List String × Value)}
    (h : pairs? depth supply room s = some (pairs, rest)) (joined : bracedTable? pairs = some v) :
    value? depth (supply + 1) (room + 1) ('\x7b' :: s) = some (v, rest) := by
  rw [value?, h]
  simp only [Option.bind_eq_bind, Option.bind_some, joined]

theorem items?_close (skipped : skipFiller false s = some (']' :: rest)) :
    items? depth (supply + 1) room s = some ([], rest) := by
  rw [items?, skipped]
  rfl

theorem pairs?_close (skipped : skipFiller false s = some ('\x7d' :: rest)) :
    pairs? depth (supply + 1) room s = some ([], rest) := by
  rw [pairs?, skipped]
  rfl

section Items

variable (skipped : skipFiller false s = some r) (opens : r.head? ≠ some ']')
  (read : value? depth supply room r = some (v, more))
include skipped opens read

theorem items?_last (closed : skipFiller false more = some (']' :: rest)) :
    items? depth (supply + 1) room s = some ([v], rest) := by
  rw [items?, skipped]
  simp only [Option.bind_eq_bind, Option.bind_some]
  split
  · exact absurd rfl opens
  · simp only [read, closed, Option.bind_some]

theorem items?_next {behind : List Char} {items : List Value}
    (goes : skipFiller false more = some (',' :: behind))
    (later : items? depth supply room behind = some (items, rest)) :
    items? depth (supply + 1) room s = some (v :: items, rest) := by
  rw [items?, skipped]
  simp only [Option.bind_eq_bind, Option.bind_some]
  split
  · exact absurd rfl opens
  · simp only [read, goes, later, Option.bind_some]

end Items

section Pairs

variable {written valued : List Char} {path : List String}
  (skipped : skipFiller false s = some r) (opens : r.head? ≠ some '\x7d')
  (key : keyPath? depth supply r = some (path, '=' :: written))
  (spaced : skipFiller false written = some valued)
  (read : value? depth supply room valued = some (v, more))
include skipped opens key spaced read

theorem pairs?_last (closed : skipFiller false more = some ('\x7d' :: rest)) :
    pairs? depth (supply + 1) room s = some ([(path, v)], rest) := by
  have unmarked : skipFiller false ('=' :: written) = some ('=' :: written) := rfl
  rw [pairs?, skipped]
  simp only [Option.bind_eq_bind, Option.bind_some]
  split
  · exact absurd rfl opens
  · simp only [key, unmarked, spaced, read, closed, Option.bind_some]

theorem pairs?_next {behind : List Char} {pairs : List (List String × Value)}
    (goes : skipFiller false more = some (',' :: behind))
    (later : pairs? depth supply room behind = some (pairs, rest)) :
    pairs? depth (supply + 1) room s = some ((path, v) :: pairs, rest) := by
  have unmarked : skipFiller false ('=' :: written) = some ('=' :: written) := rfl
  rw [pairs?, skipped]
  simp only [Option.bind_eq_bind, Option.bind_some]
  split
  · exact absurd rfl opens
  · simp only [key, unmarked, spaced, read, goes, later, Option.bind_some]

end Pairs

end Brackets

/- A bracket takes one call for the value and one for its first item, and a comma one for the next
item, so two for each character are enough. -/
mutual

theorem value?_append {depth room supply : Nat} {s rest : List Char} {v : Value} :
    ValueText s v → s.length ≤ depth → s.length ≤ room → 2 * s.length ≤ supply →
      EndsValue rest → value? depth supply room (s ++ rest) = some (v, rest)
  | .basic h, _, _, enough, ends => by
    rw [value?_scalar enough rest (by decide), List.cons_append, List.append_assoc]
    exact scalar?_basic h ends
  | .literal h, _, _, enough, ends => by
    rw [value?_scalar enough rest (by decide), List.cons_append, List.append_assoc]
    exact scalar?_literal h ends
  | .basicLines opening h last, _, _, enough, ends => by
    rw [value?_scalar enough rest (by decide)]
    simp only [List.append_assoc, List.cons_append, List.nil_append]
    exact scalar?_basicLines opening h last ends
  | .literalLines opening h last, _, _, enough, ends => by
    rw [value?_scalar enough rest (by decide)]
    simp only [List.append_assoc, List.cons_append, List.nil_append]
    exact scalar?_literalLines opening h last ends
  | .word h, _, _, enough, ends => by
    have read := scalar?_word h ends
    obtain ⟨c, t, rfl, start⟩ := h.starts
    have ne := And.intro (ne_of_apply start (d := '[') (by decide))
      (ne_of_apply start (d := '\x7b') (by decide))
    rw [value?_scalar enough rest ne, read]
  | .array h, fits, inside, enough, _ => by
    rw [List.length_cons] at fits inside enough
    obtain ⟨room, rfl⟩ := Nat.exists_eq_succ_of_ne_zero (n := room) (by omega)
    obtain ⟨supply, rfl⟩ := Nat.exists_eq_succ_of_ne_zero (n := supply) (by omega)
    exact value?_array (items?_append h (by omega) (by omega) (by omega))
  | .table h joined, fits, inside, enough, _ => by
    rw [List.length_cons] at fits inside enough
    obtain ⟨room, rfl⟩ := Nat.exists_eq_succ_of_ne_zero (n := room) (by omega)
    obtain ⟨supply, rfl⟩ := Nat.exists_eq_succ_of_ne_zero (n := supply) (by omega)
    exact value?_table (pairs?_append h (by omega) (by omega) (by omega)) joined

theorem items?_append {depth room supply : Nat} {s rest : List Char} {items : List Value} :
    ItemsText s items → s.length ≤ depth → s.length ≤ room → 2 * s.length < supply →
      items? depth supply room (s ++ rest) = some (items, rest)
  | .close before, _, _, enough => by
    obtain ⟨supply, rfl⟩ := Nat.exists_eq_succ_of_ne_zero (Nat.ne_zero_of_lt enough)
    rw [List.append_assoc]
    exact items?_close (skipFiller_append before _)
  | .last before h behind, fits, inside, enough => by
    simp only [List.length_append, List.length_cons, List.length_nil] at fits inside enough
    obtain ⟨supply, rfl⟩ := Nat.exists_eq_succ_of_ne_zero (Nat.ne_zero_of_lt enough)
    simp only [List.append_assoc, List.cons_append, List.nil_append]
    have ends := EndsValue.filler_append behind (.of_mark (c := ']') (by decide) rest)
    exact items?_last ((skipFiller_append before _).trans (skipFiller_opening h.opens _))
      (h.opens.head?_ne rfl _) (value?_append h (by omega) (by omega) (by omega) ends)
      (skipFiller_append behind _)
  | .next before h behind later, fits, inside, enough => by
    simp only [List.length_append, List.length_cons] at fits inside enough
    obtain ⟨supply, rfl⟩ := Nat.exists_eq_succ_of_ne_zero (Nat.ne_zero_of_lt enough)
    simp only [List.append_assoc, List.cons_append]
    have ends {r : List Char} := EndsValue.filler_append behind (.of_mark (c := ',') (by decide) r)
    exact items?_next ((skipFiller_append before _).trans (skipFiller_opening h.opens _))
      (h.opens.head?_ne rfl _) (value?_append h (by omega) (by omega) (by omega) ends)
      (skipFiller_append behind _) (items?_append later (by omega) (by omega) (by omega))

theorem pairs?_append {depth room supply : Nat} {s rest : List Char}
    {pairs : List (List String × Value)} :
    PairsText s pairs → s.length ≤ depth → s.length ≤ room → 2 * s.length < supply →
      pairs? depth supply room (s ++ rest) = some (pairs, rest)
  | .close before, _, _, enough => by
    obtain ⟨supply, rfl⟩ := Nat.exists_eq_succ_of_ne_zero (Nat.ne_zero_of_lt enough)
    rw [List.append_assoc]
    exact pairs?_close (skipFiller_append before _)
  | .last before key ha hb h behind, fits, inside, enough => by
    simp only [List.length_append, List.length_cons, List.length_nil] at fits inside enough
    obtain ⟨supply, rfl⟩ := Nat.exists_eq_succ_of_ne_zero (Nat.ne_zero_of_lt enough)
    simp only [List.append_assoc, List.cons_append, List.nil_append]
    have ends := EndsValue.filler_append behind (.of_mark (c := '\x7d') (by decide) rest)
    exact pairs?_last ((skipFiller_append before _).trans (skipFiller_opening key.opens _))
      (key.opens.head?_ne rfl _) (keyPath?_append key ⟨ha, .inl rfl⟩ (by omega) (by omega))
      ((skipFiller_append (.of_blanks hb) _).trans (skipFiller_opening h.opens _))
      (value?_append h (by omega) (by omega) (by omega) ends) (skipFiller_append behind _)
  | .next before key ha hb h behind later, fits, inside, enough => by
    simp only [List.length_append, List.length_cons] at fits inside enough
    obtain ⟨supply, rfl⟩ := Nat.exists_eq_succ_of_ne_zero (Nat.ne_zero_of_lt enough)
    simp only [List.append_assoc, List.cons_append]
    have ends {r : List Char} := EndsValue.filler_append behind (.of_mark (c := ',') (by decide) r)
    exact pairs?_next ((skipFiller_append before _).trans (skipFiller_opening key.opens _))
      (key.opens.head?_ne rfl _) (keyPath?_append key ⟨ha, .inl rfl⟩ (by omega) (by omega))
      ((skipFiller_append (.of_blanks hb) _).trans (skipFiller_opening h.opens _))
      (value?_append h (by omega) (by omega) (by omega) ends) (skipFiller_append behind _)
      (pairs?_append later (by omega) (by omega) (by omega))

end

/-! Statements -/

theorem EndsValue.remainder_append {r rest : List Char} (h : Remainder r) (ends : EndsValue rest) :
    EndsValue (r ++ rest) := by
  cases h with
  | blanks h => exact .filler_append (.of_blanks h) ends
  | comment h comment =>
    rw [List.append_assoc]
    cases comment
    exact .filler_append (.of_blanks h) (.of_mark (by decide) _)

/-- A key is not taken for a header, and a header is not taken for that of an array. -/
theorem Key.ne_bracket {a k : List Char} {path : List String} (ha : IsBlanks a) (h : Key k path)
    (rest more : List Char) : a ++ (k ++ rest) ≠ '[' :: more := by
  intro same
  cases a with
  | nil => exact h.starts.head?_ne (c := '[') rfl rest (congrArg List.head? same)
  | cons c a =>
    rcases (List.forall_mem_cons.mp ha).1 with rfl | rfl <;> cases same

theorem statement?_append {depth supply : Nat} {s rest : List Char} {statement : Statement}
    (h : StatementText s statement) (fits : s.length ≤ depth) (enough : 2 * s.length ≤ supply)
    (ends : EndsValue rest) : statement? depth supply (s ++ rest) = some (statement, rest) := by
  cases h with
  | header ha key hb =>
    simp only [List.length_append, List.length_cons] at fits enough
    simp only [List.append_assoc, List.cons_append, List.nil_append]
    rw [statement?.eq_2 _ _ _ (key.ne_bracket ha _), skipBlanks_append ha,
      skipBlanks_opening key.opens, keyPath?_append key ⟨hb, .inr rfl⟩ (by omega) (by omega)]
    rfl
  | arrayHeader ha key hb =>
    simp only [List.length_append, List.length_cons] at fits enough
    simp only [List.append_assoc, List.cons_append, List.nil_append]
    rw [statement?, skipBlanks_append ha, skipBlanks_opening key.opens,
      keyPath?_append key ⟨hb, .inr rfl⟩ (by omega) (by omega)]
    rfl
  | pair key ha hb h =>
    simp only [List.length_append, List.length_cons] at fits enough
    simp only [List.append_assoc, List.cons_append]
    have plain (rest r : List Char) : _ ++ rest ≠ '[' :: r := key.ne_bracket (a := []) nofun rest r
    rw [statement?.eq_3 _ _ _ (fun _ => plain _ _) (fun _ => plain _ _),
      keyPath?_append key ⟨ha, .inl rfl⟩ (by omega) (by omega)]
    simp only [Option.bind_eq_bind, Option.bind_some]
    rw [skipBlanks_append hb, skipBlanks_opening h.opens,
      value?_append h (by omega) (by omega) (by omega) ends]
    rfl

theorem StatementText.opens {s : List Char} {statement : Statement}
    (h : StatementText s statement) : StartsWith isOpening s := by
  cases h with
  | pair key => exact key.opens.append _
  | _ => exact ⟨_, _, rfl, rfl⟩

/-! Documents -/

theorem statements?_nil {depth supply : Nat} {s : List Char}
    (skipped : skipFiller false s = some []) : statements? depth (supply + 1) s = some [] := by
  rw [statements?, skipped]
  rfl

theorem statements?_cons {depth supply : Nat} {s t rest behind : List Char} {statement : Statement}
    {statements : List Statement} (h : StatementText t statement)
    (skipped : skipFiller false s = some (t ++ rest)) (fits : t.length ≤ depth)
    (ends : EndsValue rest) (ended : lineEnd false rest = some behind)
    (later : statements? depth supply behind = some statements) :
    statements? depth (supply + 1) s = some (statement :: statements) := by
  have filled : t ++ rest ≠ [] := by
    obtain ⟨c, r, rfl, -⟩ := h.opens
    exact nofun
  have enough : 2 * t.length ≤ 2 * (t ++ rest).length + 2 := by
    rw [List.length_append]
    omega
  have read := statement?_append h fits enough ends
  rw [statements?, skipped]
  simp only [Option.bind_eq_bind, Option.bind_some, read, ended, later]

theorem statements?_of_text {depth supply : Nat} {s : List Char} {statements : List Statement}
    (h : DocumentText s statements) (fits : s.length ≤ depth) (enough : s.length < supply) :
    statements? depth supply s = some statements := by
  induction h generalizing supply with
  | none before behind =>
    obtain ⟨supply, rfl⟩ := Nat.exists_eq_succ_of_ne_zero (Nat.ne_zero_of_lt enough)
    exact statements?_nil ((skipFiller_append before _).trans (skipFiller_remainder behind))
  | @last f s r statement before h behind =>
    simp only [List.length_append] at fits enough
    obtain ⟨supply, rfl⟩ := Nat.exists_eq_succ_of_ne_zero (Nat.ne_zero_of_lt enough)
    have ended : lineEnd false (r ++ []) = some [] := lineEnd_append behind fun _ => rfl
    rw [List.append_nil] at ended
    have ends : EndsValue (r ++ []) := .remainder_append behind (.stop nofun)
    rw [List.append_nil] at ends
    obtain ⟨supply, rfl⟩ : ∃ less, supply = less + 1 := by
      obtain ⟨c, t, rfl, -⟩ := h.opens
      exact ⟨supply - 1, by rw [List.length_cons] at enough; omega⟩
    exact statements?_cons h ((skipFiller_append before _).trans (skipFiller_opening h.opens _))
      (by omega) ends ended (statements?_nil rfl)
  | @next f s r b more statement statements before h behind broken _ ih =>
    simp only [List.length_append] at fits enough
    obtain ⟨supply, rfl⟩ := Nat.exists_eq_succ_of_ne_zero (Nat.ne_zero_of_lt enough)
    have filled : 0 < b.length := by cases broken <;> exact Nat.succ_pos _
    exact statements?_cons h ((skipFiller_append before _).trans (skipFiller_opening h.opens _))
      (by omega) (.remainder_append behind (.of_break broken _))
      (lineEnd_append behind fun _ => lineEnd_break broken _ more) (ih (by omega) (by omega))

theorem statement?_mark (depth supply : Nat) (rest : List Char) :
    statement? depth supply ('\ufeff' :: rest) = none := by
  cases supply <;> rfl

/-- A document does not itself begin with a byte order mark. -/
theorem DocumentText.dropByteOrderMark {s : List Char} {statements : List Statement}
    (h : DocumentText s statements) : dropByteOrderMark s = s := by
  have read := statements?_of_text h (Nat.le_refl _) (Nat.lt_succ_self _)
  unfold Toml.dropByteOrderMark
  split
  case h_1 rest =>
    have skipped : skipFiller false ('\ufeff' :: rest) = some ('\ufeff' :: rest) := rfl
    rw [statements?, skipped] at read
    simp only [Option.bind_eq_bind, Option.bind_some, statement?_mark, Option.bind_none] at read
    cases read
  case h_2 => rfl

theorem readWithin?_of_spells {source : String} {statements : List Statement} {entries : Entries}
    (spelled : Spells source statements) (joined : assemble? statements = some entries) :
    ∃ depth, readWithin? depth source = some entries := by
  obtain ⟨s, document, written⟩ := spelled
  have unmarked : dropByteOrderMark source.toList = s := by
    rcases written with same | same
    · rw [same, document.dropByteOrderMark]
    · rw [same]
      rfl
  refine ⟨s.length, ?_⟩
  rw [readWithin?, unmarked, statements?_of_text document (Nat.le_refl _) (Nat.lt_succ_self _)]
  exact joined

/-- The source is a document with these entries. It spells statements that go together to them, by
the rules of the format; or it is read into them at some depth, for the reader also takes texts that
the rules leave out, such as numbers with stray underscores. -/
inductive Describes (source : String) (entries : Entries) : Prop where
  | spelled {statements : List Statement} (h : Spells source statements)
    (joined : assemble? statements = some entries) : Describes source entries
  | read {depth : Nat} (h : readWithin? depth source = some entries) : Describes source entries

theorem Describes.exists_read {source : String} {entries : Entries}
    (h : Describes source entries) : ∃ depth, readWithin? depth source = some entries := by
  cases h with
  | spelled h joined => exact readWithin?_of_spells h joined
  | read h => exact ⟨_, h⟩

end GraphqlCrud.Toml
