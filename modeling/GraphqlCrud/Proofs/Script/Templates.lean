import GraphqlCrud.Proofs.Script.Literal
/-!
Reading template literals back. The reader goes through code character by character, past strings,
and evaluates the templates that it meets. It gives up on what it does not evaluate: comments,
substitutions, escapes by number and carriage returns.
-/
namespace GraphqlCrud.Script

open Text

/-- A template literal: the code before it, from the beginning of its line or the template before
it, and the text that it stands for. -/
structure Template where
  before : String
  value : String
deriving Repr, DecidableEq

/-- What a character after a backslash stands for. A line break there continues the line. -/
def escaped? : Char → Option String
  | 'n' => some "\n"
  | 't' => some "\t"
  | 'r' => some "\r"
  | 'b' => some "\x08"
  | 'f' => some "\x0c"
  | 'v' => some "\x0b"
  | '\n' | '\u2028' | '\u2029' => some ""
  | '\r' | 'x' | 'u' => none
  | c => if c.isDigit then none else some (String.singleton c)

/-- Where in code a character stands. In a template, `opening` says whether a brace would open a
substitution. -/
inductive Place where
  | code
  | string (mark : Char)
  | stringEscape (mark : Char)
  | template (value : String) (opening : Bool)
  | templateEscape (value : String)
deriving Repr, DecidableEq

structure Reader where
  line : String := ""
  found : List Template := []
  place : Place := .code
deriving Repr, DecidableEq

def Reader.step (r : Reader) (c : Char) : Option Reader :=
  match r.place with
  | .code =>
    if c = '\n' then some { r with line := "" }
    else if c = '\x60' then some { r with place := .template "" false }
    else if c = '/' then none
    else if c = '"' ∨ c = '\'' then some { r with line := r.line.push c, place := .string c }
    else some { r with line := r.line.push c }
  | .string mark =>
    if c = '\n' ∨ c = '\r' then none
    else if c = '\\' then some { r with line := r.line.push c, place := .stringEscape mark }
    else if c = mark then some { r with line := r.line.push c, place := .code }
    else some { r with line := r.line.push c }
  | .stringEscape mark => some { r with line := r.line.push c, place := .string mark }
  | .template value opening =>
    if c = '\x60' then some { found := r.found ++ [{ before := r.line, value }] }
    else if c = '\\' then some { r with place := .templateEscape value }
    else if c = '\r' ∨ (opening ∧ c = '\x7b') then none
    else some { r with place := .template (value.push c) (c = '$') }
  | .templateEscape value =>
    (escaped? c).map fun text => { r with place := .template (value ++ text) false }

/-- The template literals of code, in order. -/
def templates? (code : String) : Option (List Template) :=
  (code.toList.foldlM Reader.step {}).bind fun r => if r.place = .code then some r.found else none

/-- Reading `code` takes the reader from `r` to `r'`. -/
def Reads (r : Reader) (code : String) (r' : Reader) : Prop :=
  code.toList.foldlM Reader.step r = some r'

theorem Reads.append {r₁ r₂ r₃ : Reader} {s t : String} (first : Reads r₁ s r₂)
    (second : Reads r₂ t r₃) : Reads r₁ (s ++ t) r₃ := by
  rw [Reads, String.toList_append, List.foldlM_append, first]
  exact second

theorem Reads.append_chars {r₁ r₂ r₃ : Reader} {s t : List Char}
    (first : Reads r₁ (String.ofList s) r₂) (second : Reads r₂ (String.ofList t) r₃) :
    Reads r₁ (String.ofList (s ++ t)) r₃ := by
  rw [String.ofList_append]
  exact first.append second

theorem Reads.templates?_eq {code line : String} {found : List Template}
    (h : Reads {} code { line, found }) : templates? code = some found := by
  rw [templates?, h]
  rfl

theorem append_ofList_singleton (s : String) (c : Char) : s ++ String.ofList [c] = s.push c := by
  apply String.toList_injective
  simp

theorem append_ofList_cons (s : String) (c : Char) (cs : List Char) :
    s ++ String.ofList (c :: cs) = s.push c ++ String.ofList cs := by
  apply String.toList_injective
  simp

theorem reads_char {r r' : Reader} {c : Char} (h : r.step c = some r') :
    Reads r (String.ofList [c]) r' := by
  rw [Reads, String.toList_ofList, List.foldlM_cons, h]
  rfl

/-- What holds of the code for each character holds of the code for a text. -/
theorem reads_flatMap {state : String → Reader} {code : Char → List Char} {s : List Char}
    (h : ∀ c ∈ s, ∀ line, Reads (state line) (String.ofList (code c))
      (state (line ++ String.ofList (code c)))) (line : String) :
    Reads (state line) (String.ofList (s.flatMap code))
      (state (line ++ String.ofList (s.flatMap code))) := by
  induction s generalizing line with
  | nil =>
    rw [List.flatMap_nil, String.ofList_nil, String.append_empty]
    rfl
  | cons c s ih =>
    obtain ⟨first, others⟩ := List.forall_mem_cons.mp h
    rw [List.flatMap_cons, String.ofList_append, ← String.append_assoc]
    exact (first line).append (ih others _)

variable {line : String} {found : List Template}

theorem reads_feed : Reads { line, found } "\n" { found } := rfl

/-- Code on one line, which the reader passes without meeting a template. -/
structure IsFlat (s : String) : Prop where
  isLine : IsLine s
  reads : ∀ line found, Reads { line, found } s { line := line ++ s, found }

theorem IsFlat.append {s t : String} (hs : IsFlat s) (ht : IsFlat t) : IsFlat (s ++ t) where
  isLine := hs.isLine.append ht.isLine
  reads := by
    intro line found
    rw [← String.append_assoc]
    exact (hs.reads line found).append (ht.reads _ found)

theorem IsFlat.reads_line {s : String} (h : IsFlat s) : Reads { found } (s ++ "\n") { found } :=
  (h.reads "" found).append reads_feed

/-- Lines one below the other are read one after the other. -/
theorem reads_ended {α : Type} {items : List α} {line : α → String} {holds : α → List Template}
    (h : ∀ a ∈ items, ∀ found, Reads { found } (line a ++ "\n") { found := found ++ holds a }) :
    Reads { found } (ended (items.map line)) { found := found ++ items.flatMap holds } := by
  induction items generalizing found with
  | nil =>
    rw [List.flatMap_nil, List.append_nil]
    rfl
  | cons a items ih =>
    obtain ⟨first, others⟩ := List.forall_mem_cons.mp h
    rw [List.map_cons, ended_cons, List.flatMap_cons, ← List.append_assoc]
    exact (first found).append (ih others)

/-- Code without line breaks, literals and slashes. -/
def IsPlain (s : String) : Prop := ∀ c ∈ s.toList, c ∉ ['\n', '\r', '\x60', '/', '"', '\'']

instance (s : String) : Decidable (IsPlain s) := List.decidableBAll _ s.toList

theorem IsPlain.isFlat {s : String} (h : IsPlain s) : IsFlat s where
  isLine := by
    intro c hc
    have plain := h c hc
    simp only [List.mem_cons, not_or] at plain
    exact ⟨plain.1, plain.2.1⟩
  reads := by
    intro line found
    have char : ∀ c ∈ s.toList, ∀ line, Reads { line, found } (String.ofList [c])
        { line := line ++ String.ofList [c], found } := by
      intro c hc line
      have plain := h c hc
      simp only [List.mem_cons, List.not_mem_nil, or_false, not_or] at plain
      obtain ⟨feed, -, template, slash, double, single⟩ := plain
      apply reads_char
      simp [Reader.step, feed, template, slash, double, single]
    have chars := reads_flatMap char line
    rwa [List.flatMap_singleton', String.ofList_toList] at chars

theorem isFlat_of_isWord {s : String} (h : IsWord s) : IsFlat s := by
  apply IsPlain.isFlat
  intro c hc
  exact h.notMem_marks (by decide) hc

theorem reads_escape (mark c : Char) : Reads { line, found, place := .string mark }
    (String.ofList ['\\', c])
      { line := line ++ String.ofList ['\\', c], found, place := .string mark } := by
  have pair : String.ofList ['\\', c] = String.ofList ['\\'] ++ String.ofList [c] := by
    rw [← String.ofList_append, List.singleton_append]
  have both : line ++ String.ofList ['\\', c] = (line.push '\\').push c := by
    rw [pair, ← String.append_assoc, append_ofList_singleton, append_ofList_singleton]
  have first : Reads { line, found, place := .string mark } (String.ofList ['\\'])
      { line := line.push '\\', found, place := .stringEscape mark } :=
    reads_char (by simp [Reader.step])
  rw [both, pair]
  exact first.append (reads_char (by simp [Reader.step]))

/-- The reader passes a string from its first mark to the second. -/
theorem IsQuoting.reads {mark : Char} {code : Char → List Char} (h : IsQuoting mark code)
    (hmark : mark = '"' ∨ mark = '\'') (s : List Char) :
    Reads { line, found } (String.ofList (mark :: s.flatMap code ++ [mark]))
      { line := line ++ String.ofList (mark :: s.flatMap code ++ [mark]), found } := by
  have opening : Reads { line, found } (String.ofList [mark])
      { line := line.push mark, found, place := .string mark } := by
    apply reads_char
    rcases hmark with rfl | rfl <;> simp [Reader.step]
  have closing (line : String) : Reads { line, found, place := .string mark }
      (String.ofList [mark]) { line := line.push mark, found } := by
    apply reads_char
    rcases hmark with rfl | rfl <;> simp [Reader.step]
  have char : ∀ c ∈ s, ∀ line, Reads { line, found, place := .string mark }
      (String.ofList (code c))
        { line := line ++ String.ofList (code c), found, place := .string mark } := by
    intro c _ line
    rcases h c with ⟨d, hcode, -⟩ | ⟨hcode, plain⟩
    · rw [hcode]
      exact reads_escape mark d
    · simp only [List.mem_cons, List.not_mem_nil, or_false, not_or] at plain
      obtain ⟨feed, ret, backslash, other⟩ := plain
      rw [hcode, append_ofList_singleton]
      apply reads_char
      simp [Reader.step, feed, ret, backslash, other]
  have parts : String.ofList (mark :: s.flatMap code ++ [mark]) =
      String.ofList [mark] ++ String.ofList (s.flatMap code) ++ String.ofList [mark] := by
    rw [← String.ofList_append, ← String.ofList_append, List.singleton_append]
  have whole : line ++ String.ofList (mark :: s.flatMap code ++ [mark]) =
      (line.push mark ++ String.ofList (s.flatMap code)).push mark := by
    rw [parts, ← String.append_assoc, append_ofList_singleton, ← String.append_assoc,
      append_ofList_singleton]
  rw [whole, parts]
  exact (opening.append (reads_flatMap char _)).append (closing _)

theorem isFlat_doubleQuoted (s : String) : IsFlat (doubleQuoted s) where
  isLine := isLine_doubleQuoted s
  reads := fun _ _ => isQuoting_doubleQuotedChar.reads (.inl rfl) s.toList

theorem isFlat_singleQuoted (s : String) : IsFlat (singleQuoted s) where
  isLine := isLine_singleQuoted s
  reads := fun _ _ => isQuoting_singleQuotedChar.reads (.inr rfl) s.toList

theorem reads_templateEscape {c : Char} (hc : escaped? c = some (String.singleton c))
    {value : String} {opening : Bool} : Reads { line, found, place := .template value opening }
      (String.ofList ['\\', c]) { line, found, place := .template (value.push c) false } := by
  simp [Reads, Reader.step, hc]

theorem reads_templateChar {c : Char} (mark : c ≠ '\x60') (backslash : c ≠ '\\') (ret : c ≠ '\r')
    {value : String} {opening : Bool} (closed : opening = false ∨ c ≠ '\x7b') :
    Reads { line, found, place := .template value opening } (String.ofList [c])
      { line, found, place := .template (value.push c) (c = '$') } := by
  apply reads_char
  have shut : ¬(opening = true ∧ c = '\x7b') := by
    rintro ⟨opens, brace⟩
    rcases closed with closed | closed
    · rw [closed] at opens
      cases opens
    · exact closed brace
  simp [Reader.step, mark, backslash, ret, shut]

/-- From within a template the reader takes the rest of the text and the end of the literal. -/
theorem reads_templateChars {s : List Char} (h : '\r' ∉ s) {value : String} {opening : Bool}
    (closed : opening = false ∨ ∀ rest, s ≠ '\x7b' :: rest) :
    Reads { line, found, place := .template value opening }
      (String.ofList (templateChars s ++ ['\x60']))
        { found := found ++ [⟨line, value ++ String.ofList s⟩] } := by
  induction s using templateChars.induct generalizing value opening with
  | case1 => simp [Reads, templateChars, Reader.step]
  | case2 rest ih =>
    -- The dollar is escaped, so the brace after it opens nothing.
    have plain : '\r' ∉ rest := fun member => h (.tail _ (.tail _ member))
    have brace : Reads { line, found, place := .template (value.push '$') false }
        (String.ofList ['\x7b'])
          { line, found, place := .template ((value.push '$').push '\x7b') false } :=
      reads_templateChar (by decide) (by decide) (by decide) (.inl rfl)
    rw [templateChars, append_ofList_cons, append_ofList_cons]
    exact ((reads_templateEscape rfl).append_chars brace).append_chars (ih plain (.inl rfl))
  | case3 rest ih =>
    have plain : '\r' ∉ rest := fun member => h (.tail _ member)
    rw [templateChars, append_ofList_cons]
    exact (reads_templateEscape rfl).append_chars (ih plain (.inl rfl))
  | case4 rest ih =>
    have plain : '\r' ∉ rest := fun member => h (.tail _ member)
    rw [templateChars, append_ofList_cons]
    exact (reads_templateEscape rfl).append_chars (ih plain (.inl rfl))
  | case5 c rest substitution backslash mark ih =>
    obtain ⟨ret, plain⟩ := not_or.mp (mt List.mem_cons.mpr h)
    have shut : opening = false ∨ c ≠ '\x7b' := by
      refine closed.imp_right fun other brace => ?_
      exact other rest (by rw [brace])
    -- A dollar that stands for itself has no brace after it.
    have after : decide (c = '$') = false ∨ ∀ more, rest ≠ '\x7b' :: more := by
      by_cases dollar : c = '$'
      · exact .inr fun more => substitution more dollar
      · exact .inl (decide_eq_false dollar)
    rw [templateChars.eq_5 _ _ substitution backslash mark, append_ofList_cons]
    exact (reads_templateChar mark backslash (Ne.symm ret) shut).append_chars (ih plain after)

theorem reads_templateLiteral {s : String} (h : '\r' ∉ s.toList) :
    Reads { line, found } (templateLiteral s) { found := found ++ [⟨line, s⟩] } := by
  have opening : Reads { line, found } (String.ofList ['\x60'])
      { line, found, place := .template "" false } := reads_char rfl
  have parts : templateLiteral s =
      String.ofList ['\x60'] ++ String.ofList (templateChars s.toList ++ ['\x60']) := by
    rw [← String.ofList_append, templateLiteral, List.singleton_append, List.cons_append]
  have text : Reads { line, found, place := .template "" false }
      (String.ofList (templateChars s.toList ++ ['\x60']))
        { found := found ++ [⟨line, "" ++ String.ofList s.toList⟩] } :=
    reads_templateChars h (.inl rfl)
  rw [String.empty_append, String.ofList_toList] at text
  rw [parts]
  exact opening.append text

end GraphqlCrud.Script
