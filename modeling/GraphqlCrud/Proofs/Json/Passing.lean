import Mathlib.Data.List.TakeWhile
import GraphqlCrud.Proofs.Json.Forms
import GraphqlCrud.Proofs.Json.Scanning
/-!
What stands in a text that passes. A reader that finds nothing broken has gone through the tokens of
a value, so whatever passes the check of a form is JSON.
-/
namespace GraphqlCrud.Json

/-! What passes the check of a form can be passed over. -/

/-- A check is no more tolerant than passing over. -/
def Check.IsStrict (c : Check) : Prop := ∀ t : Tree, c t = .ok () → t.pass = .ok ()

theorem passItems_eq_forM (items : List Tree) : passItems items = items.forM Tree.pass := by
  induction items with
  | nil => rfl
  | cons t items ih =>
    rw [passItems, ih]
    rfl

namespace Check.IsStrict

theorem text : IsStrict Check.text := by
  intro t ok
  cases t with
  | text content => rfl
  | _ => cases ok

theorem flag : IsStrict Check.flag := by
  intro t ok
  cases t with
  | flag b => rfl
  | _ => cases ok

theorem optional {c : Check} (h : IsStrict c) : IsStrict (Check.optional c) := by
  intro t ok
  cases t with
  | null => rfl
  | _ => exact h _ ok

theorem list {c : Check} (h : IsStrict c) : IsStrict (Check.list c) := by
  intro t ok
  cases t with
  | array items close =>
    obtain ⟨checked, closed⟩ := both_eq_ok_iff.mp ok
    have each := forM_eq_ok_iff.mp checked
    refine both_eq_ok_iff.mpr ⟨?_, closed⟩
    rw [passItems_eq_forM]
    exact forM_eq_ok_iff.mpr fun t ht => h t (each t ht)
  | _ => cases ok

theorem choice (words : List String) : IsStrict (Check.choice words) := by
  intro t ok
  cases t with
  | text content => rfl
  | object entries close =>
    match entries with
    | [] => cases (both_eq_ok_iff.mp ok).2
    | .broken reading passing :: rest => cases ok
    | .member (.error d) value :: rest => cases ok
    | .member (.ok word) value :: rest =>
      unfold Check.choice at ok
      dsimp only at ok
      by_cases known : word ∈ words
      · rw [if_pos known] at ok
        cases value with
        | null =>
          cases rest with
          | nil => exact ok
          | cons e rest => cases ok
        | _ => cases ok
      · rw [if_neg known] at ok
        cases ok
  | broken stump reading passing => cases stump <;> cases ok
  | _ => cases ok

theorem members {parts : List Part} (strict : ∀ p ∈ parts, p.check.IsStrict) {entries : List Entry}
    {seen seen' : List String} (ok : Check.members parts seen entries = .ok seen') :
    passEntries entries = .ok () := by
  induction entries generalizing seen with
  | nil => rfl
  | cons e entries ih =>
    cases e with
    | broken reading passing => cases ok
    | member key value =>
      cases key with
      | error d => cases ok
      | ok key =>
        rw [Check.members] at ok
        split at ok
        · obtain ⟨passed, ok⟩ := both_eq_ok_iff.mp ok
          exact both_eq_ok_iff.mpr ⟨passed, ih ok⟩
        · next part found =>
          split_ifs at ok
          obtain ⟨checked, ok⟩ := both_eq_ok_iff.mp ok
          have passed := strict part (List.mem_of_find?_eq_some found) value checked
          exact both_eq_ok_iff.mpr ⟨passed, ih ok⟩

theorem positional {parts : List Part} (strict : ∀ p ∈ parts, p.check.IsStrict)
    {items : List Tree} {close : Close} (ok : Check.positional parts items close = .ok ()) :
    (Tree.array items close).pass = .ok () := by
  induction items generalizing parts with
  | nil =>
    cases parts with
    | nil => exact ok
    | cons p parts => exact (both_eq_ok_iff.mp ok).1
  | cons t items ih =>
    cases parts with
    | nil => cases ok
    | cons p parts =>
      obtain ⟨first, rest⟩ := List.forall_mem_cons.mp strict
      obtain ⟨checked, ok⟩ := both_eq_ok_iff.mp ok
      obtain ⟨passed, closed⟩ := both_eq_ok_iff.mp (ih rest ok)
      exact both_eq_ok_iff.mpr ⟨both_eq_ok_iff.mpr ⟨first t checked, passed⟩, closed⟩

theorem record {parts : List Part} (strict : ∀ p ∈ parts, p.check.IsStrict) :
    IsStrict (Check.record parts) := by
  intro t ok
  cases t with
  | object entries close =>
    rw [Check.record] at ok
    cases read : Check.members parts [] entries with
    | error d =>
      rw [read] at ok
      cases ok
    | ok seen =>
      rw [read] at ok
      obtain ⟨closed, -⟩ := both_eq_ok_iff.mp ok
      exact both_eq_ok_iff.mpr ⟨members strict read, closed⟩
  | array items close => exact positional strict ok
  | _ => cases ok

end Check.IsStrict

mutual
theorem Form.isStrict : ∀ f : Form, f.check.IsStrict
  | .text => .text
  | .flag => .flag
  | .optional form => .optional form.isStrict
  | .list item => .list item.isStrict
  | .choice words => .choice words
  | .record parts => .record (isStrict_checksOf parts)

theorem isStrict_checksOf : ∀ parts : List (FormPart Form), ∀ p ∈ checksOf parts, p.check.IsStrict
  | [] => nofun
  | ⟨_, _, form⟩ :: rest => List.forall_mem_cons.mpr ⟨form.isStrict, isStrict_checksOf rest⟩
end

/-! White space -/

theorem exists_space (s : List Char) :
    ∃ space, (∀ c ∈ space, isSpace c = true) ∧ s = space ++ skipSpace s :=
  ⟨s.takeWhile isSpace, fun _ hc => List.mem_takeWhile_imp hc,
    List.takeWhile_append_dropWhile.symm⟩

theorem Spaced.space_append {space s : List Char} {tokens : List Token}
    (h : ∀ c ∈ space, isSpace c = true) (spaced : Spaced tokens s) :
    Spaced tokens (space ++ s) := by
  cases spaced with
  | none behind => exact .none (List.forall_mem_append.mpr ⟨h, behind⟩)
  | token behind rest =>
    rw [← List.append_assoc]
    exact .token (List.forall_mem_append.mpr ⟨h, behind⟩) rest

theorem Spaced.of_skipSpace {s : List Char} {tokens : List Token}
    (h : Spaced tokens (skipSpace s)) : Spaced tokens s := by
  obtain ⟨space, blank, split⟩ := exists_space s
  rw [split]
  exact h.space_append blank

/-- The tokens stand at the front of a text, and the rest comes behind them. -/
def Leads (tokens : List Token) (s rest : List Char) : Prop :=
  ∀ more, Spaced more rest → Spaced (tokens ++ more) s

namespace Leads

theorem append {front back : List Token} {s middle rest : List Char} (h : Leads front s middle)
    (h' : Leads back middle rest) : Leads (front ++ back) s rest := by
  intro more spaced
  rw [List.append_assoc]
  exact h _ (h' more spaced)

theorem of_skipSpace {tokens : List Token} {s rest : List Char}
    (h : Leads tokens (skipSpace s) rest) : Leads tokens s rest :=
  fun more spaced => (h more spaced).of_skipSpace

theorem token {t s rest : List Char} (h : skipSpace s = t ++ rest) : Leads [t] s rest := by
  apply of_skipSpace
  intro more spaced
  rw [h]
  exact spaced.of_append

theorem char {c : Char} {s rest : List Char} (h : skipSpace s = c :: rest) : Leads [[c]] s rest :=
  token h

end Leads

/-! Strings -/

theorem mem_shortEscapes {c x : Char} (h : shortEscape? c = some x) : c ∈ shortEscapes := by
  unfold shortEscape? at h
  split at h <;> first | decide | cases h

theorem isHexDigit_of_hexValue {c : Char} {n : Nat} (h : hexValue? c = some n) :
    isHexDigit c = true := by
  unfold hexValue? at h
  simp only [isHexDigit, Bool.or_eq_true, Bool.and_eq_true, decide_eq_true_eq]
  split_ifs at h <;> tauto

theorem isHexDigit_of_hexQuad {a b c d : Char} {n : Nat} (h : hexQuad? a b c d = some n) :
    [a, b, c, d].all isHexDigit = true := by
  simp only [hexQuad?, Option.bind_eq_bind, Option.bind_eq_some_iff] at h
  obtain ⟨_, ha, _, hb, _, hc, _, hd, -⟩ := h
  simp only [List.all_cons, List.all_nil, Bool.and_true, Bool.and_eq_true]
  exact ⟨isHexDigit_of_hexValue ha, isHexDigit_of_hexValue hb, isHexDigit_of_hexValue hc,
    isHexDigit_of_hexValue hd⟩

/-- Glyphs stand in a string that can be passed over. -/
theorem exists_glyphs {s rest : List Char} (h : passText s = .ok rest) :
    ∃ glyphs : List Glyph, s = glyphs.flatMap Glyph.chars ++ '"' :: rest := by
  fun_induction passText s with
  | case1 => cases h
  | case2 rest =>
    obtain rfl := Except.ok.inj h
    exact ⟨[], rfl⟩
  | case3 => cases h
  | case4 a b c d rest n quad ih =>
    obtain ⟨glyphs, rfl⟩ := ih h
    exact ⟨.quad a b c d (isHexDigit_of_hexQuad quad) :: glyphs, by simp [Glyph.chars]⟩
  | case5 c rest other x escape ih =>
    obtain ⟨glyphs, rfl⟩ := ih h
    exact ⟨.short c (mem_shortEscapes escape) :: glyphs, by simp [Glyph.chars]⟩
  | case6 => cases h
  | case7 => cases h
  | case8 => cases h
  | case9 c rest unquoted noQuad noShort alone visible ih =>
    obtain ⟨glyphs, rfl⟩ := ih h
    have unescaped : c ≠ '\\' := by
      rintro rfl
      cases glyphs with
      | nil => exact noShort _ _ rfl rfl
      | cons g glyphs => cases g <;> exact noShort _ _ rfl rfl
    have shown : 0x20 ≤ c.toNat ∧ c ≠ '"' ∧ c ≠ '\\' := ⟨Nat.not_lt.mp visible, unquoted, unescaped⟩
    exact ⟨.plain c shown :: glyphs, rfl⟩

/-! Words and numbers -/

theorem exists_of_bind {ε α β : Type} {x : Except ε α} {f : α → Except ε β} {b : β}
    (h : x >>= f = .ok b) : ∃ a, x = .ok a ∧ f a = .ok b := by
  cases x with
  | error e => cases h
  | ok a => exact ⟨a, rfl, h⟩

theorem restOfWord_eq {word s rest : List Char} (h : restOfWord word s = .ok rest) :
    s = word ++ rest := by
  induction word generalizing s with
  | nil => exact Except.ok.inj h
  | cons a word ih =>
    cases s with
    | nil => cases h
    | cons c s =>
      rw [restOfWord] at h
      split_ifs at h with same
      rw [same, ih h, List.cons_append]

theorem digitRun_eq {s digits rest : List Char} (h : digitRun s = (digits, rest)) :
    s = digits ++ rest ∧ ∀ c ∈ digits, c.isDigit = true := by
  rw [digitRun, List.span_eq_takeWhile_dropWhile] at h
  obtain ⟨rfl, rfl⟩ := Prod.mk.inj h
  exact ⟨List.takeWhile_append_dropWhile.symm, fun _ hc => List.mem_takeWhile_imp hc⟩

theorem exists_digits {s digits rest : List Char} (h : digitRun s = (digits, rest))
    (some : digits ≠ []) : ∃ d : Digits, d.chars = digits ∧ s = d.chars ++ rest :=
  ⟨⟨digits, some, (digitRun_eq h).2⟩, rfl, (digitRun_eq h).1⟩

theorem exists_whole {s whole rest : List Char} (h : wholePart s = .ok (whole, rest)) :
    ∃ d : Digits, s = d.chars ++ rest ∧ (d.chars.head? = some '0' → d.chars = ['0']) := by
  unfold wholePart at h
  split at h
  · split at h
    · next behind run =>
      obtain ⟨rfl, rfl⟩ := Prod.mk.inj (Except.ok.inj h)
      obtain ⟨split, -⟩ := digitRun_eq run
      exact ⟨⟨['0'], List.cons_ne_nil _ _, by simp⟩, by rw [split]; rfl, fun _ => rfl⟩
    · cases h
  · next unpadded =>
    split at h
    · cases h
    · next digits behind nonempty run =>
      obtain ⟨rfl, rfl⟩ := Prod.mk.inj (Except.ok.inj h)
      obtain ⟨d, rfl, split⟩ := exists_digits run fun none => nonempty none
      refine ⟨d, split, fun zero => ?_⟩
      obtain ⟨more, chars⟩ := List.head?_eq_some_iff.mp zero
      exact (unpadded (more ++ _) (by rw [split, chars]; rfl)).elim

theorem exists_fraction {s fraction rest : List Char} (h : fractionPart s = .ok (fraction, rest)) :
    ∃ d : Option Digits, s = (d.map fun d => '.' :: d.chars).getD [] ++ rest := by
  unfold fractionPart at h
  split at h
  · split at h
    · cases h
    · next digits behind nonempty run =>
      obtain ⟨rfl, rfl⟩ := Prod.mk.inj (Except.ok.inj h)
      obtain ⟨d, rfl, split⟩ := exists_digits run fun none => nonempty none
      exact ⟨some d, by rw [split]; rfl⟩
  · obtain ⟨rfl, rfl⟩ := Prod.mk.inj (Except.ok.inj h)
    exact ⟨none, rfl⟩

theorem exists_exponent {s rest : List Char} {power : Int} {mark : Char}
    (isMark : mark = 'e' ∨ mark = 'E') (h : exponentPart s = .ok (power, rest)) :
    ∃ e : Exponent, mark :: s = e.chars ++ rest := by
  unfold exponentPart at h
  split at h
  next isNegative unsigned signed =>
  have sign : ∃ sign, (sign = [] ∨ sign = ['+'] ∨ sign = ['-']) ∧ s = sign ++ unsigned := by
    split at signed
    all_goals obtain ⟨-, rfl⟩ := Prod.mk.inj signed
    · exact ⟨['-'], .inr (.inr rfl), rfl⟩
    · exact ⟨['+'], .inr (.inl rfl), rfl⟩
    · exact ⟨[], .inl rfl, rfl⟩
  obtain ⟨sign, isSign, rfl⟩ := sign
  split at h
  · cases h
  · next digits behind nonempty run =>
    obtain ⟨-, rfl⟩ := Prod.mk.inj (Except.ok.inj h)
    obtain ⟨d, rfl, rfl⟩ := exists_digits run fun none => nonempty none
    exact ⟨⟨mark, sign, d, isMark, isSign⟩, by simp [Exponent.chars]⟩

/-- A number stands at the front of what is read as one. -/
theorem exists_number {s rest : List Char} {fault : Option Defect}
    (h : number s = .ok (fault, rest)) :
    ∃ n : Number, n.isNegative = false ∧ s = n.body ++ rest := by
  unfold number at h
  obtain ⟨⟨w, s₁⟩, whole, h₁⟩ := exists_of_bind h
  obtain ⟨⟨f, s₂⟩, fraction, h₂⟩ := exists_of_bind h₁
  have ending : ∃ e : Option Exponent, s₂ = (e.map Exponent.chars).getD [] ++ rest := by
    dsimp only at h₂
    split at h₂
    · obtain ⟨⟨e, s₃⟩, exponent, h₃⟩ := exists_of_bind h₂
      obtain ⟨-, rfl⟩ := Prod.mk.inj (Except.ok.inj h₃)
      obtain ⟨e, split⟩ := exists_exponent (.inl rfl) exponent
      exact ⟨some e, split⟩
    · obtain ⟨⟨e, s₃⟩, exponent, h₃⟩ := exists_of_bind h₂
      obtain ⟨-, rfl⟩ := Prod.mk.inj (Except.ok.inj h₃)
      obtain ⟨e, split⟩ := exists_exponent (.inr rfl) exponent
      exact ⟨some e, split⟩
    · obtain ⟨-, rfl⟩ := Prod.mk.inj (Except.ok.inj h₂)
      exact ⟨none, rfl⟩
  obtain ⟨w, rfl, unpadded⟩ := exists_whole whole
  obtain ⟨f, rfl⟩ := exists_fraction fraction
  obtain ⟨e, rfl⟩ := ending
  refine ⟨⟨false, w, f, e, unpadded⟩, rfl, ?_⟩
  rw [Number.body, Number.fractionChars, Number.exponentChars, List.append_assoc, List.append_assoc]

/-! Values -/

theorem eq_closed {close : Close} (h : close.check = .ok ()) : close = .closed := by
  cases close with
  | closed => rfl
  | unclosed d => cases h

theorem leads_word {word s behind rest : List Char} {c : Char} {value t : Tree}
    (skip : skipSpace s = c :: behind) (h : wordTree word value behind = (t, rest))
    (passed : t.pass = .ok ()) : Leads [c :: word] s rest := by
  unfold wordTree at h
  split at h
  · next read =>
    obtain ⟨-, rfl⟩ := Prod.mk.inj h
    exact .token (by rw [skip, restOfWord_eq read, List.cons_append])
  · obtain ⟨rfl, -⟩ := Prod.mk.inj h
    cases passed

theorem exists_number_of_tree {s rest : List Char} {t : Tree} (h : numberTree s = (t, rest))
    (passed : t.pass = .ok ()) : ∃ n : Number, n.isNegative = false ∧ s = n.body ++ rest := by
  unfold numberTree at h
  split at h
  · next read =>
    obtain ⟨-, rfl⟩ := Prod.mk.inj h
    exact exists_number read
  · obtain ⟨rfl, -⟩ := Prod.mk.inj h
    cases passed

theorem leads_text {s behind rest : List Char} {t : Tree} (skip : skipSpace s = '"' :: behind)
    (h : textTree behind = (t, rest)) (passed : t.pass = .ok ()) :
    ∃ v : Value, Leads v.tokens s rest := by
  unfold textTree at h
  split at h
  · next read =>
    obtain ⟨-, rfl⟩ := Prod.mk.inj h
    obtain ⟨glyphs, rfl⟩ := exists_glyphs read
    exact ⟨.text glyphs, .token (by rw [skip, literal]; simp)⟩
  · obtain ⟨rfl, -⟩ := Prod.mk.inj h
    cases passed

/-- What a call of the reader goes through when nothing is broken. -/
structure Reads (supply : Nat) : Prop where
  value : ∀ s t rest, valueTree supply s = (t, rest) → t.pass = .ok () →
    ∃ v : Value, Leads v.tokens s rest
  items : ∀ isFirst s ts rest, itemTrees supply isFirst s = (ts, .closed, rest) →
    passItems ts = .ok () → ∃ vs : List Value, Leads (itemTokens isFirst vs ++ [[']']]) s rest
  entries : ∀ isFirst s es rest, entryTrees supply isFirst s = (es, .closed, rest) →
    passEntries es = .ok () →
    ∃ ms : List Member, Leads (memberTokens isFirst ms ++ [['\x7d']]) s rest

theorem reads_zero : Reads 0 where
  value := by
    intro s t rest h passed
    obtain ⟨rfl, -⟩ := Prod.mk.inj h
    cases passed
  items := by
    intro isFirst s ts rest h
    cases h
  entries := by
    intro isFirst s es rest h
    cases h

theorem Reads.value_succ {supply : Nat} (ih : Reads supply) {s rest : List Char} {t : Tree}
    (h : valueTree (supply + 1) s = (t, rest)) (passed : t.pass = .ok ()) :
    ∃ v : Value, Leads v.tokens s rest := by
  unfold valueTree at h
  split at h
  · obtain ⟨rfl, -⟩ := Prod.mk.inj h
    cases passed
  · next behind skip =>
    obtain ⟨es, close, r, entries⟩ : ∃ es close r, entryTrees supply true behind = (es, close, r) :=
      ⟨_, _, _, rfl⟩
    rw [entries] at h
    obtain ⟨rfl, rfl⟩ := Prod.mk.inj h
    obtain ⟨inside, closed⟩ := both_eq_ok_iff.mp passed
    obtain rfl := eq_closed closed
    obtain ⟨ms, members⟩ := ih.entries _ _ _ _ entries inside
    exact ⟨.object ms, (Leads.char skip).append members⟩
  · next behind skip =>
    obtain ⟨ts, close, r, items⟩ : ∃ ts close r, itemTrees supply true behind = (ts, close, r) :=
      ⟨_, _, _, rfl⟩
    rw [items] at h
    obtain ⟨rfl, rfl⟩ := Prod.mk.inj h
    obtain ⟨inside, closed⟩ := both_eq_ok_iff.mp passed
    obtain rfl := eq_closed closed
    obtain ⟨vs, values⟩ := ih.items _ _ _ _ items inside
    exact ⟨.array vs, (Leads.char skip).append values⟩
  · next skip => exact leads_text skip h passed
  · next skip => exact ⟨.flag true, leads_word skip h passed⟩
  · next skip => exact ⟨.flag false, leads_word skip h passed⟩
  · next skip => exact ⟨.null, leads_word skip h passed⟩
  · next skip =>
    obtain ⟨n, -, rfl⟩ := exists_number_of_tree h passed
    exact ⟨.number { n with isNegative := true }, .token skip⟩
  · next skip =>
    split_ifs at h with digit
    · obtain ⟨n, unsigned, split⟩ := exists_number_of_tree h passed
      exact ⟨.number n, .token (by rw [skip, split, Number.chars, unsigned]; rfl)⟩
    · obtain ⟨rfl, -⟩ := Prod.mk.inj h
      cases passed

/-- What stands behind the comma before a part, or at the first part itself. -/
theorem leads_separated {isFirst : Bool} {c : Char} {s behind rest : List Char}
    {tokens : List Token} (skip : skipSpace s = c :: behind)
    (separates : (isFirst || c = ',') = true)
    (h : Leads tokens (if isFirst then c :: behind else behind) rest) :
    Leads (separator isFirst ++ tokens) s rest := by
  cases isFirst with
  | true =>
    rw [if_pos rfl, ← skip] at h
    exact h.of_skipSpace
  | false =>
    obtain rfl : c = ',' := by simpa using separates
    exact (Leads.char skip).append h

theorem Reads.items_succ {supply : Nat} (ih : Reads supply) {isFirst : Bool} {s rest : List Char}
    {ts : List Tree} (h : itemTrees (supply + 1) isFirst s = (ts, .closed, rest))
    (passed : passItems ts = .ok ()) :
    ∃ vs : List Value, Leads (itemTokens isFirst vs ++ [[']']]) s rest := by
  unfold itemTrees at h
  split at h
  · cases h
  · next skip =>
    cases h
    exact ⟨[], .char skip⟩
  · next c behind _ skip =>
    by_cases separates : (isFirst || c = ',') = true
    · rw [if_pos separates] at h
      obtain ⟨item, r, first⟩ : ∃ item r,
          valueTree supply (if isFirst then c :: behind else behind) = (item, r) := ⟨_, _, rfl⟩
      obtain ⟨items, close, r', others⟩ : ∃ items close r',
          itemTrees supply false r = (items, close, r') := ⟨_, _, _, rfl⟩
      simp only [first, others] at h
      cases h
      obtain ⟨passed, inside⟩ := both_eq_ok_iff.mp passed
      obtain ⟨v, value⟩ := ih.value _ _ _ first passed
      obtain ⟨vs, values⟩ := ih.items _ _ _ _ others inside
      refine ⟨v :: vs, ?_⟩
      rw [itemTokens, List.append_assoc, List.append_assoc]
      exact leads_separated skip separates (value.append values)
    · rw [if_neg separates] at h
      cases h

theorem Reads.entries_succ {supply : Nat} (ih : Reads supply) {isFirst : Bool}
    {s rest : List Char} {es : List Entry}
    (h : entryTrees (supply + 1) isFirst s = (es, .closed, rest))
    (passed : passEntries es = .ok ()) :
    ∃ ms : List Member, Leads (memberTokens isFirst ms ++ [['\x7d']]) s rest := by
  unfold entryTrees at h
  split at h
  · cases h
  · next skip =>
    cases h
    exact ⟨[], .char skip⟩
  · next c behind _ skip =>
    by_cases separates : (isFirst || c = ',') = true
    · rw [if_pos separates] at h
      split at h
      · cases h
      · next quote =>
        split at h
        · cases h
        · next afterKey key =>
          obtain ⟨glyphs, rfl⟩ := exists_glyphs key
          dsimp only at h
          split at h
          · next inside colon =>
            obtain ⟨value, r, first⟩ : ∃ value r, valueTree supply inside = (value, r) :=
              ⟨_, _, rfl⟩
            obtain ⟨entries, close, r', others⟩ : ∃ entries close r',
                entryTrees supply false r = (entries, close, r') := ⟨_, _, _, rfl⟩
            simp only [first, others] at h
            cases h
            obtain ⟨passed, inside⟩ := both_eq_ok_iff.mp passed
            obtain ⟨v, value⟩ := ih.value _ _ _ first passed
            obtain ⟨ms, members⟩ := ih.entries _ _ _ _ others inside
            have key : Leads [literal glyphs] (if isFirst then c :: behind else behind) afterKey :=
              .token (by rw [quote, literal]; simp)
            refine ⟨(glyphs, v) :: ms, ?_⟩
            rw [memberTokens, List.append_assoc, List.cons_append, List.cons_append,
              List.append_assoc]
            exact leads_separated skip separates
              (key.append ((Leads.char colon).append (value.append members)))
          · cases h
      · cases h
    · rw [if_neg separates] at h
      cases h

theorem reads (supply : Nat) : Reads supply := by
  induction supply with
  | zero => exact reads_zero
  | succ supply ih =>
    exact ⟨fun _ _ _ => ih.value_succ, fun _ _ _ _ => ih.items_succ, fun _ _ _ _ => ih.entries_succ⟩

/-- A text in which nothing is broken, and nothing follows the value, spells a value. -/
theorem exists_spells {s : String} {t : Tree} {rest : List Char} (h : readTree s.toList = (t, rest))
    (passed : t.pass = .ok ()) (last : skipSpace rest = []) : ∃ v : Value, v.Spells s := by
  obtain ⟨v, leads⟩ := (reads _).value _ _ _ h passed
  have nothing : Spaced [] (skipSpace rest) := by
    rw [last]
    exact .none nofun
  exact ⟨v, by simpa [Value.Spells] using leads [] nothing.of_skipSpace⟩

end GraphqlCrud.Json
