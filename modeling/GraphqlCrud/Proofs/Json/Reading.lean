import GraphqlCrud.Proofs.Json.Scanning
/-!
The tree of a value. A text that spells a value is read into the value's tree, however the text is
spaced.
-/
namespace GraphqlCrud.Json

/-- What the glyphs of a string stand for, or the defect of a string that stands for nothing. -/
def decoded (glyphs : List Glyph) : Except Defect String :=
  match text? glyphs with
  | some s => .ok s
  | none => .error .malformed

mutual
def Value.tree : Value → Tree
  | .null => .null
  | .flag b => .flag b
  | .number n => .number n.fault
  | .text glyphs => .text (decoded glyphs)
  | .array items => .array (treesOf items) .closed
  | .object members => .object (entriesOf members) .closed

def treesOf : List Value → List Tree
  | [] => []
  | item :: rest => item.tree :: treesOf rest

def entriesOf : List (List Glyph × Value) → List Entry
  | [] => []
  | (key, value) :: rest => .member (decoded key) value.tree :: entriesOf rest
end

theorem treesOf_eq_map (items : List Value) : treesOf items = items.map Value.tree := by
  induction items with
  | nil => rfl
  | cons item items ih => rw [treesOf, ih, List.map_cons]

/-! Tokens -/

theorem isSpace_of_isDigit {c : Char} (digit : c.isDigit = true) : isSpace c = false := by
  have blank := Text.ne_of_apply digit (d := ' ') (by decide)
  have feed := Text.ne_of_apply digit (d := '\n') (by decide)
  have tab := Text.ne_of_apply digit (d := '\t') (by decide)
  have ret := Text.ne_of_apply digit (d := '\r') (by decide)
  simp [isSpace, blank, feed, tab, ret]

theorem Number.exists_chars (n : Number) : ∃ c t, n.chars = c :: t ∧
    ((n.isNegative = true ∧ c = '-' ∧ t = n.body) ∨ (c.isDigit = true ∧ c :: t = n.body)) := by
  cases negative : n.isNegative with
  | true => exact ⟨'-', n.body, by rw [chars, negative]; rfl, .inl ⟨rfl, rfl, rfl⟩⟩
  | false =>
    obtain ⟨c, more, whole⟩ := List.exists_cons_of_ne_nil n.whole.nonempty
    have body : n.body = c :: (more ++ (n.fractionChars ++ n.exponentChars)) := by
      rw [Number.body, whole, List.cons_append]
    have digit : c.isDigit = true := n.whole.areDigits c (by rw [whole]; exact List.mem_cons_self)
    exact ⟨c, _, by rw [chars, negative, body]; rfl, .inr ⟨digit, body.symm⟩⟩

/-- A token that begins a value: it does not begin with white space or with a closing bracket. -/
structure Opens (t : Token) (c : Char) (rest : List Char) : Prop where
  chars : t = c :: rest
  solid : isSpace c = false
  notBracket : c ≠ ']'
  notBrace : c ≠ '\x7d'

theorem Number.opens (n : Number) : ∃ c t, Opens n.chars c t := by
  obtain ⟨c, t, chars, ⟨-, rfl, -⟩ | ⟨digit, -⟩⟩ := n.exists_chars
  · exact ⟨_, _, chars, by decide, by decide, by decide⟩
  · exact ⟨c, t, chars, isSpace_of_isDigit digit, Text.ne_of_apply digit (by decide),
      Text.ne_of_apply digit (by decide)⟩

theorem Value.exists_tokens (v : Value) :
    ∃ t more c rest, v.tokens = t :: more ∧ Opens t c rest := by
  cases v with
  | null => exact ⟨_, [], 'n', _, rfl, rfl, by decide, by decide, by decide⟩
  | flag b =>
    cases b with
    | true => exact ⟨_, [], 't', _, rfl, rfl, by decide, by decide, by decide⟩
    | false => exact ⟨_, [], 'f', _, rfl, rfl, by decide, by decide, by decide⟩
  | number n =>
    obtain ⟨c, rest, opens⟩ := n.opens
    exact ⟨n.chars, [], c, rest, rfl, opens⟩
  | text glyphs => exact ⟨_, [], '"', _, rfl, rfl, by decide, by decide, by decide⟩
  | array items => exact ⟨['['], _, '[', [], rfl, rfl, by decide, by decide, by decide⟩
  | object members => exact ⟨['\x7b'], _, '\x7b', [], rfl, rfl, by decide, by decide, by decide⟩

theorem filled_separator (isFirst : Bool) : ∀ t ∈ separator isFirst, t ≠ [] := by
  cases isFirst with
  | true => exact nofun
  | false => exact List.forall_mem_singleton.mpr (List.cons_ne_nil _ _)

theorem Value.tokens_ne_nil (v : Value) : v.tokens ≠ [] := by
  obtain ⟨t, more, c, rest, tokens, -⟩ := v.exists_tokens
  rw [tokens]
  exact List.cons_ne_nil _ _

/-- What may come behind a value: the end, a comma or a closing bracket. -/
def EndsValue (tokens : List Token) : Prop :=
  ∀ t ∈ tokens.head?, t = [','] ∨ t = [']'] ∨ t = ['\x7d']

theorem endsValue_items (items : List Value) (more : List Token) :
    EndsValue (itemTokens false items ++ [']'] :: more) := by
  intro t ht
  cases items with
  | nil => exact .inr (.inl (Option.some.inj ht).symm)
  | cons item items => exact .inl (Option.some.inj ht).symm

theorem endsValue_members (members : List Member) (more : List Token) :
    EndsValue (memberTokens false members ++ ['\x7d'] :: more) := by
  intro t ht
  cases members with
  | nil => exact .inr (.inr (Option.some.inj ht).symm)
  | cons m members => exact .inl (Option.some.inj ht).symm

theorem Spaced.endsNumber {tokens : List Token} {s : List Char} (h : Spaced tokens s)
    (ends : EndsValue tokens) : EndsNumber s := by
  have blank {c : Char} (hc : isSpace c = true) :
      c.isDigit = false ∧ c ≠ '.' ∧ c ≠ 'e' ∧ c ≠ 'E' := by
    simp only [isSpace, Bool.or_eq_true, beq_iff_eq] at hc
    rcases hc with ((rfl | rfl) | rfl) | rfl <;> decide
  intro c hc
  cases h with
  | none space => exact blank (space c (List.mem_of_mem_head? hc))
  | @token space t s tokens hspace rest =>
    cases space with
    | cons d space =>
      obtain rfl := Option.some.inj hc
      exact blank (hspace d List.mem_cons_self)
    | nil =>
      rcases ends t rfl with rfl | rfl | rfl <;>
        (obtain rfl := Option.some.inj hc; decide)

/-! Reading -/

theorem textTree_literal (glyphs : List Glyph) (rest : List Char) :
    textTree (glyphs.flatMap Glyph.chars ++ '"' :: rest) = (.text (decoded glyphs), rest) := by
  rw [textTree, passText_glyphs, readText_glyphs, decoded, text?]
  cases content? glyphs <;> rfl

theorem numberTree_body (n : Number) {rest : List Char} (ends : EndsNumber rest) :
    numberTree (n.body ++ rest) = (.number n.fault, rest) := by
  rw [numberTree, number_body n ends]

theorem restOfWord_append (word rest : List Char) : restOfWord word (word ++ rest) = .ok rest := by
  induction word with
  | nil => rfl
  | cons c word ih => rw [List.cons_append, restOfWord, if_pos rfl, ih]

theorem wordTree_append (word : List Char) (value : Tree) (rest : List Char) :
    wordTree word value (word ++ rest) = (value, rest) := by
  rw [wordTree, restOfWord_append]

/-- A digit begins a number. -/
theorem valueTree_digit {c : Char} {s rest : List Char} (supply : Nat) (digit : c.isDigit = true)
    (skip : skipSpace s = c :: rest) : valueTree (supply + 1) s = numberTree (c :: rest) := by
  have other {d : Char} (hd : d.isDigit = false) : c ≠ d := Text.ne_of_apply digit hd
  rw [valueTree, skip]
  split
  · next same => cases same
  · next same => exact (other (by decide) (List.cons.inj same).1).elim
  · next same => exact (other (by decide) (List.cons.inj same).1).elim
  · next same => exact (other (by decide) (List.cons.inj same).1).elim
  · next same => exact (other (by decide) (List.cons.inj same).1).elim
  · next same => exact (other (by decide) (List.cons.inj same).1).elim
  · next same => exact (other (by decide) (List.cons.inj same).1).elim
  · next same => exact (other (by decide) (List.cons.inj same).1).elim
  · next same =>
    obtain ⟨rfl, rfl⟩ := List.cons.inj same
    rw [if_pos digit]

theorem exists_supply {tokens : List Token} {supply : Nat} (filled : tokens ≠ [])
    (enough : tokens.length ≤ supply) : ∃ less, supply = less + 1 := by
  have positive := List.length_pos_iff.mpr filled
  exact ⟨supply - 1, by omega⟩

/-- The key of a member and the colon behind it. -/
theorem Spaced.exists_key {key : List Glyph} {s : List Char} {tokens : List Token}
    (h : Spaced (literal key :: [':'] :: tokens) s) : ∃ text afterKey rest,
      skipSpace s = '"' :: text ∧ passText text = .ok afterKey ∧
      (readText text).map (fun (content, _) => String.ofList content) = decoded key ∧
      skipSpace afterKey = ':' :: rest ∧ Spaced tokens rest := by
  obtain ⟨afterKey, skip, after⟩ := h.exists_skipSpace (by decide)
  obtain ⟨rest, colon, last⟩ := after.exists_skipSpace (by decide)
  rw [List.append_assoc, List.singleton_append] at skip
  refine ⟨_, afterKey, rest, skip, passText_glyphs key afterKey, ?_, colon, last⟩
  rw [readText_glyphs, decoded, text?]
  cases content? key <;> rfl

/-- A member is read behind the comma before it, if there is one. -/
theorem entryTrees_member {isFirst : Bool} {supply : Nat} {s r text afterKey rest : List Char}
    {c : Char} {key : Except Defect String} (start : skipSpace s = c :: r) (other : c ≠ '\x7d')
    (goes : (isFirst || c = ',') = true)
    (quote : skipSpace (if isFirst then c :: r else r) = '"' :: text)
    (pass : passText text = .ok afterKey)
    (read : (readText text).map (fun (content, _) => String.ofList content) = key)
    (colon : skipSpace afterKey = ':' :: rest) :
    entryTrees (supply + 1) isFirst s =
      let (value, rest) := valueTree supply rest
      let (entries, close, rest) := entryTrees supply false rest
      (.member key value :: entries, close, rest) := by
  rw [entryTrees, start]
  split
  · next same => cases same
  · next same => exact (other (List.cons.inj same).1).elim
  · next same =>
    obtain ⟨rfl, rfl⟩ := List.cons.inj same
    simp only [goes, if_true, quote, pass, read, colon]

mutual
/-- A value is read up to its last token. It takes no more supply than it has tokens. -/
theorem valueTree_spaced : ∀ (v : Value) {more : List Token} {s : List Char} {supply : Nat},
    EndsValue more → Spaced (v.tokens ++ more) s → v.tokens.length ≤ supply →
      ∃ rest, valueTree supply s = (v.tree, rest) ∧ Spaced more rest
  | .null, more, s, supply, ends, spaced, enough => by
    obtain ⟨supply, rfl⟩ := exists_supply (Value.tokens_ne_nil _) enough
    obtain ⟨rest, skip, after⟩ := spaced.exists_skipSpace (by decide)
    exact ⟨rest, by rw [valueTree, skip]; exact wordTree_append _ _ _, after⟩
  | .flag true, more, s, supply, ends, spaced, enough => by
    obtain ⟨supply, rfl⟩ := exists_supply (Value.tokens_ne_nil _) enough
    obtain ⟨rest, skip, after⟩ := spaced.exists_skipSpace (by decide)
    exact ⟨rest, by rw [valueTree, skip]; exact wordTree_append _ _ _, after⟩
  | .flag false, more, s, supply, ends, spaced, enough => by
    obtain ⟨supply, rfl⟩ := exists_supply (Value.tokens_ne_nil _) enough
    obtain ⟨rest, skip, after⟩ := spaced.exists_skipSpace (by decide)
    exact ⟨rest, by rw [valueTree, skip]; exact wordTree_append _ _ _, after⟩
  | .number n, more, s, supply, ends, spaced, enough => by
    obtain ⟨supply, rfl⟩ := exists_supply (Value.tokens_ne_nil _) enough
    rw [Value.tokens, List.singleton_append] at spaced
    obtain ⟨c, t, chars, ⟨-, rfl, rfl⟩ | ⟨digit, body⟩⟩ := n.exists_chars
    · rw [chars] at spaced
      obtain ⟨rest, skip, after⟩ := spaced.exists_skipSpace (by decide)
      refine ⟨rest, ?_, after⟩
      rw [valueTree, skip]
      exact numberTree_body n (after.endsNumber ends)
    · rw [chars] at spaced
      obtain ⟨rest, skip, after⟩ := spaced.exists_skipSpace (isSpace_of_isDigit digit)
      refine ⟨rest, ?_, after⟩
      rw [valueTree_digit supply digit skip, ← List.cons_append, body]
      exact numberTree_body n (after.endsNumber ends)
  | .text glyphs, more, s, supply, ends, spaced, enough => by
    obtain ⟨supply, rfl⟩ := exists_supply (Value.tokens_ne_nil _) enough
    obtain ⟨rest, skip, after⟩ := spaced.exists_skipSpace (by decide)
    refine ⟨rest, ?_, after⟩
    rw [valueTree, skip, List.append_assoc]
    exact textTree_literal glyphs rest
  | .array items, more, s, supply, ends, spaced, enough => by
    obtain ⟨supply, rfl⟩ := exists_supply (Value.tokens_ne_nil _) enough
    rw [Value.tokens, List.cons_append, List.append_assoc] at spaced
    obtain ⟨inside, skip, items_spaced⟩ := spaced.exists_skipSpace (by decide)
    have less : (itemTokens true items).length < supply := by
      simp only [Value.tokens, List.length_cons, List.length_append] at enough
      omega
    obtain ⟨rest, read, after⟩ := itemTrees_spaced items items_spaced less
    exact ⟨rest, by rw [valueTree, skip, List.nil_append]; simp only [read, Value.tree], after⟩
  | .object members, more, s, supply, ends, spaced, enough => by
    obtain ⟨supply, rfl⟩ := exists_supply (Value.tokens_ne_nil _) enough
    rw [Value.tokens, List.cons_append, List.append_assoc] at spaced
    obtain ⟨inside, skip, members_spaced⟩ := spaced.exists_skipSpace (by decide)
    have less : (memberTokens true members).length < supply := by
      simp only [Value.tokens, List.length_cons, List.length_append] at enough
      omega
    obtain ⟨rest, read, after⟩ := entryTrees_spaced members members_spaced less
    exact ⟨rest, by rw [valueTree, skip, List.nil_append]; simp only [read, Value.tree], after⟩

theorem itemTrees_spaced : ∀ (items : List Value) {isFirst : Bool} {more : List Token}
    {s : List Char} {supply : Nat}, Spaced (itemTokens isFirst items ++ [']'] :: more) s →
      (itemTokens isFirst items).length < supply →
      ∃ rest, itemTrees supply isFirst s = (treesOf items, .closed, rest) ∧ Spaced more rest
  | [], isFirst, more, s, supply + 1, spaced, enough => by
    rw [itemTokens, List.nil_append] at spaced
    obtain ⟨rest, skip, after⟩ := spaced.exists_skipSpace (by decide)
    exact ⟨rest, by rw [itemTrees, skip]; rfl, after⟩
  | item :: items, isFirst, more, s, supply + 1, spaced, enough => by
    have positive := List.length_pos_iff.mpr item.tokens_ne_nil
    rw [itemTokens, List.append_assoc, List.append_assoc] at spaced
    simp only [itemTokens, List.length_append] at enough
    -- Before the item stands nothing or a comma, and the item itself is read from there.
    have opened : ∃ inside, itemTrees (supply + 1) isFirst s =
        (let (item, rest) := valueTree supply inside
         let (items, close, rest) := itemTrees supply false rest
         (item :: items, close, rest)) ∧
        Spaced (item.tokens ++ (itemTokens false items ++ [']'] :: more)) inside := by
      cases isFirst with
      | true =>
        obtain ⟨t, others, c, rest, tokens, rfl, solid, bracket, -⟩ := item.exists_tokens
        rw [separator, if_pos rfl, List.nil_append, tokens, List.cons_append] at spaced
        obtain ⟨inside, skip, after⟩ := spaced.exists_skipSpace solid
        refine ⟨c :: (rest ++ inside), ?_, ?_⟩
        · rw [itemTrees, skip]
          split
          · next same => cases same
          · next same => exact (bracket (List.cons.inj same).1).elim
          · next same =>
            obtain ⟨rfl, rfl⟩ := List.cons.inj same
            rfl
        · rw [tokens]
          exact after.of_append
      | false =>
        obtain ⟨inside, skip, after⟩ := spaced.exists_skipSpace (by decide)
        exact ⟨inside, by rw [itemTrees, skip]; rfl, after⟩
    obtain ⟨inside, step, item_spaced⟩ := opened
    have few : item.tokens.length ≤ supply := by omega
    have fewer : (itemTokens false items).length < supply := by omega
    obtain ⟨rest, read, after⟩ :=
      valueTree_spaced item (endsValue_items items more) item_spaced few
    obtain ⟨last, reads, final⟩ := itemTrees_spaced items after fewer
    exact ⟨last, by rw [step, read]; simp only [reads, treesOf], final⟩

theorem entryTrees_spaced : ∀ (members : List (List Glyph × Value)) {isFirst : Bool}
    {more : List Token} {s : List Char} {supply : Nat},
      Spaced (memberTokens isFirst members ++ ['\x7d'] :: more) s →
      (memberTokens isFirst members).length < supply →
      ∃ rest, entryTrees supply isFirst s = (entriesOf members, .closed, rest) ∧ Spaced more rest
  | [], isFirst, more, s, supply + 1, spaced, enough => by
    rw [memberTokens, List.nil_append] at spaced
    obtain ⟨rest, skip, after⟩ := spaced.exists_skipSpace (by decide)
    exact ⟨rest, by rw [entryTrees, skip]; rfl, after⟩
  | (key, value) :: members, isFirst, more, s, supply + 1, spaced, enough => by
    have positive := List.length_pos_iff.mpr value.tokens_ne_nil
    rw [memberTokens, List.append_assoc, List.cons_append, List.cons_append,
      List.append_assoc] at spaced
    simp only [memberTokens, List.length_append, List.length_cons] at enough
    -- Before the key stands nothing or a comma.
    have opened : ∃ inside, entryTrees (supply + 1) isFirst s =
        (let (value, rest) := valueTree supply inside
         let (entries, close, rest) := entryTrees supply false rest
         (.member (decoded key) value :: entries, close, rest)) ∧
        Spaced (value.tokens ++ (memberTokens false members ++ ['\x7d'] :: more)) inside := by
      cases isFirst with
      | true =>
        obtain ⟨text, afterKey, rest, quote, pass, read, colon, after⟩ := spaced.exists_key
        have again : skipSpace ('"' :: text) = '"' :: text := skipSpace_cons (by decide) text
        exact ⟨rest, entryTrees_member quote (by decide) rfl again pass read colon, after⟩
      | false =>
        obtain ⟨behind, comma, key_spaced⟩ := spaced.exists_skipSpace (by decide)
        obtain ⟨text, afterKey, rest, quote, pass, read, colon, after⟩ := key_spaced.exists_key
        exact ⟨rest, entryTrees_member comma (by decide) rfl quote pass read colon, after⟩
    obtain ⟨inside, step, value_spaced⟩ := opened
    have few : value.tokens.length ≤ supply := by omega
    have fewer : (memberTokens false members).length < supply := by omega
    obtain ⟨rest, read, after⟩ :=
      valueTree_spaced value (endsValue_members members more) value_spaced few
    obtain ⟨last, reads, final⟩ := entryTrees_spaced members after fewer
    exact ⟨last, by rw [step, read]; simp only [reads, entriesOf], final⟩
end

mutual
theorem Value.filled : ∀ v : Value, ∀ t ∈ v.tokens, t ≠ []
  | .null => List.forall_mem_singleton.mpr (List.cons_ne_nil _ _)
  | .flag true => List.forall_mem_singleton.mpr (List.cons_ne_nil _ _)
  | .flag false => List.forall_mem_singleton.mpr (List.cons_ne_nil _ _)
  | .number n => by
    obtain ⟨c, rest, opens⟩ := n.opens
    exact List.forall_mem_singleton.mpr (by rw [opens.chars]; exact List.cons_ne_nil _ _)
  | .text glyphs => List.forall_mem_singleton.mpr (List.cons_ne_nil _ _)
  | .array items => by
    refine List.forall_mem_cons.mpr ⟨List.cons_ne_nil _ _, List.forall_mem_append.mpr ⟨?_, ?_⟩⟩
    · exact filled_items true items
    · exact List.forall_mem_singleton.mpr (List.cons_ne_nil _ _)
  | .object members => by
    refine List.forall_mem_cons.mpr ⟨List.cons_ne_nil _ _, List.forall_mem_append.mpr ⟨?_, ?_⟩⟩
    · exact filled_members true members
    · exact List.forall_mem_singleton.mpr (List.cons_ne_nil _ _)

theorem filled_items (isFirst : Bool) : ∀ items, ∀ t ∈ itemTokens isFirst items, t ≠ []
  | [] => nofun
  | item :: items => by
    have rest := filled_items false items
    refine List.forall_mem_append.mpr ⟨filled_separator isFirst, ?_⟩
    exact List.forall_mem_append.mpr ⟨item.filled, rest⟩

theorem filled_members (isFirst : Bool) : ∀ members, ∀ t ∈ memberTokens isFirst members, t ≠ []
  | [] => nofun
  | (key, value) :: members => by
    have rest := filled_members false members
    refine List.forall_mem_append.mpr ⟨filled_separator isFirst, ?_⟩
    refine List.forall_mem_cons.mpr ⟨List.cons_ne_nil _ _, ?_⟩
    refine List.forall_mem_cons.mpr ⟨List.cons_ne_nil _ _, ?_⟩
    exact List.forall_mem_append.mpr ⟨value.filled, rest⟩
end

/-- A text that spells a value is read into the value's tree, and only white space is left. -/
theorem readTree_spells {v : Value} {s : String} (h : v.Spells s) :
    ∃ rest, readTree s.toList = (v.tree, rest) ∧ skipSpace rest = [] := by
  have spaced : Spaced (v.tokens ++ []) s.toList := by rwa [List.append_nil]
  have enough : v.tokens.length ≤ 2 * s.toList.length + 2 := by
    have bound := h.length_le v.filled
    omega
  have ends : EndsValue [] := by
    intro t ht
    cases ht
  obtain ⟨rest, read, after⟩ := valueTree_spaced v ends spaced enough
  exact ⟨rest, read, after.skipSpace_eq_nil⟩

end GraphqlCrud.Json
