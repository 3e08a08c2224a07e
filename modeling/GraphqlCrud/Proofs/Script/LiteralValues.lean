import GraphqlCrud.Json.Text
import GraphqlCrud.Proofs.Script.Templates
/-!
What literals stand for. A literal is read by the rules of the generated language: a backslash
begins an escape, the mark of the literal ends it, and in a template every end of a line is a line
feed. Of each text the literals that are written for it are read back as that text.
-/
namespace GraphqlCrud.Script

open Text

/-! Escapes -/

/-- The number that hexadecimal digits spell. -/
def hexNumber? (digits : List Char) : Option Nat :=
  if digits = [] then none
  else digits.foldlM (fun n digit => (Json.hexValue? digit).map (16 * n + ·)) 0

/-- An escape by number, with what comes after it. Half of a surrogate pair is refused, as it is no
character. -/
def numbered? (digits rest : List Char) : Option (List Char × List Char) :=
  (hexNumber? digits).bind fun n =>
    if n.isValidChar then some ([Char.ofNat n], rest) else none

/-- What an escape stands for, read behind its backslash, and what comes after it. A line break in
its place continues the line; a zero may not be followed by a digit. -/
def escape? : List Char → Option (List Char × List Char)
  | [] => none
  | '\r' :: '\n' :: rest => some ([], rest)
  | '\r' :: rest => some ([], rest)
  | '0' :: rest => if rest.head?.any Char.isDigit then none else some (['\x00'], rest)
  | 'x' :: a :: b :: rest => numbered? [a, b] rest
  | 'u' :: '\x7b' :: rest => (cut? ['\x7d'] rest).bind fun (digits, rest) => numbered? digits rest
  | 'u' :: a :: b :: c :: d :: rest => numbered? [a, b, c, d] rest
  | c :: rest => (escaped? c).map fun text => (text.toList, rest)

theorem eq_of_numbered? {digits after text rest : List Char}
    (h : numbered? digits after = some (text, rest)) : rest = after := by
  obtain ⟨n, -, character⟩ := Option.bind_eq_some_iff.mp h
  split at character
  · exact (Prod.mk.inj (Option.some.inj character)).2.symm
  · cases character

theorem length_lt_of_escape? {s text rest : List Char} (h : escape? s = some (text, rest)) :
    rest.length < s.length := by
  unfold escape? at h
  split at h
  · cases h
  · obtain ⟨-, rfl⟩ := Prod.mk.inj (Option.some.inj h)
    simp only [List.length_cons]
    omega
  · obtain ⟨-, rfl⟩ := Prod.mk.inj (Option.some.inj h)
    exact Nat.lt_succ_self _
  · split at h
    · cases h
    · obtain ⟨-, rfl⟩ := Prod.mk.inj (Option.some.inj h)
      exact Nat.lt_succ_self _
  · obtain rfl := eq_of_numbered? h
    simp only [List.length_cons]
    omega
  · obtain ⟨⟨digits, after⟩, cut, number⟩ := Option.bind_eq_some_iff.mp h
    obtain rfl := eq_of_numbered? number
    have shorter := length_of_cut? cut
    simp only [List.length_cons]
    omega
  · obtain rfl := eq_of_numbered? h
    simp only [List.length_cons]
    omega
  · obtain ⟨single, -, same⟩ := Option.map_eq_some_iff.mp h
    obtain ⟨-, rfl⟩ := Prod.mk.inj same
    exact Nat.lt_succ_self _

/-! Literals -/

/-- Text that stands before what is read next. -/
def before (text : List Char) (read : Option (List Char × List Char)) :
    Option (List Char × List Char) :=
  read.map fun (value, rest) => (text ++ value, rest)

/-- The value of a string literal, read behind its opening mark, and what follows its closing mark.
No line ends within a string. -/
def stringBody? (mark : Char) : List Char → Option (List Char × List Char)
  | [] => none
  | c :: s =>
    if c = mark then some ([], s)
    else if c = '\n' ∨ c = '\r' then none
    else if c = '\\' then
      match _ : escape? s with
      | none => none
      | some (text, rest) => before text (stringBody? mark rest)
    else before [c] (stringBody? mark s)
termination_by s => s.length
decreasing_by
  · have := length_lt_of_escape? ‹_›
    simp only [List.length_cons]
    omega
  · exact Nat.lt_succ_self _

theorem stringBody?_mark (mark : Char) (s : List Char) :
    stringBody? mark (mark :: s) = some ([], s) := by
  rw [stringBody?, if_pos rfl]

/-- The value of a template literal, read behind its opening mark, and what follows its closing
mark. There is none if the literal holds a substitution. -/
def templateBody? : List Char → Option (List Char × List Char)
  | [] => none
  | '\x60' :: s => some ([], s)
  | '\\' :: s =>
    match _ : escape? s with
    | none => none
    | some (text, rest) => before text (templateBody? rest)
  | '$' :: '\x7b' :: _ => none
  | '\r' :: '\n' :: s => before ['\n'] (templateBody? s)
  | '\r' :: s => before ['\n'] (templateBody? s)
  | c :: s => before [c] (templateBody? s)
termination_by s => s.length
decreasing_by
  · have := length_lt_of_escape? ‹_›
    simp only [List.length_cons]
    omega
  all_goals
    simp only [List.length_cons]
    omega

theorem templateBody?_mark (s : List Char) : templateBody? ('\x60' :: s) = some ([], s) := by
  rw [templateBody?]

def readString? : List Char → Option (List Char × List Char)
  | [] => none
  | mark :: s => if mark = '"' ∨ mark = '\'' then stringBody? mark s else none

def readTemplate? : List Char → Option (List Char × List Char)
  | [] => none
  | mark :: s => if mark = '\x60' then templateBody? s else none

/-- The literal is read to its end and no further, whatever follows it, and stands for the value. -/
def ReadsAs (read : List Char → Option (List Char × List Char)) (literal value : String) : Prop :=
  ∀ rest, read (literal.toList ++ rest) = some (value.toList, rest)

theorem ReadsAs.value_inj {read : List Char → Option (List Char × List Char)}
    {literal s t : String} (hs : ReadsAs read literal s) (ht : ReadsAs read literal t) : s = t := by
  have same := (hs []).symm.trans (ht [])
  exact String.toList_injective (Prod.mk.inj (Option.some.inj same)).1

/-- A literal as it is written, and what follows it. -/
theorem toList_between (mark : Char) (body rest : List Char) :
    (String.ofList (mark :: body ++ [mark])).toList ++ rest = mark :: (body ++ mark :: rest) := by
  rw [String.toList_ofList, List.append_assoc, List.cons_append, List.singleton_append]

/-! Strings -/

theorem escape?_single {c d : Char} (plain : d ∉ ['\r', '0', 'x', 'u'])
    (stands : escaped? d = some (String.singleton c)) (rest : List Char) :
    escape? (d :: rest) = some ([c], rest) := by
  simp only [List.mem_cons, List.not_mem_nil, or_false, not_or] at plain
  obtain ⟨ret, zero, hex, unit⟩ := plain
  unfold escape?
  split
  all_goals simp_all

/-- A code for characters between marks that reading undoes: an escape for the character, or the
character itself where it is neither a mark, nor a backslash, nor an end of line. -/
def IsReadable (mark : Char) (code : Char → List Char) : Prop :=
  ∀ c, (∃ d, code c = ['\\', d] ∧ ∀ rest, escape? (d :: rest) = some ([c], rest)) ∨
    (code c = [c] ∧ c ∉ ['\n', '\r', '\\', mark])

theorem isReadable_doubleQuotedChar : IsReadable '"' doubleQuotedChar := by
  intro c
  unfold doubleQuotedChar
  split
  · exact .inl ⟨_, rfl, escape?_single (by decide) rfl⟩
  · exact .inl ⟨_, rfl, escape?_single (by decide) rfl⟩
  · exact .inl ⟨_, rfl, escape?_single (by decide) rfl⟩
  · exact .inl ⟨_, rfl, escape?_single (by decide) rfl⟩
  · exact .inl ⟨_, rfl, escape?_single (by decide) rfl⟩
  · next backslash mark feed ret _ =>
    refine .inr ⟨rfl, ?_⟩
    simp only [List.mem_cons, List.not_mem_nil, or_false, not_or]
    exact ⟨feed, ret, backslash, mark⟩

theorem isReadable_singleQuotedChar : IsReadable '\'' singleQuotedChar := by
  intro c
  unfold singleQuotedChar
  split
  · exact .inl ⟨_, rfl, escape?_single (by decide) rfl⟩
  · exact .inl ⟨_, rfl, escape?_single (by decide) rfl⟩
  · exact .inl ⟨_, rfl, escape?_single (by decide) rfl⟩
  · exact .inl ⟨_, rfl, escape?_single (by decide) rfl⟩
  · next backslash mark feed ret =>
    refine .inr ⟨rfl, ?_⟩
    simp only [List.mem_cons, List.not_mem_nil, or_false, not_or]
    exact ⟨feed, ret, backslash, mark⟩

theorem stringBody?_escape {mark : Char} (other : mark ≠ '\\') {s text rest : List Char}
    (h : escape? s = some (text, rest)) :
    stringBody? mark ('\\' :: s) = before text (stringBody? mark rest) := by
  rw [stringBody?, if_neg other.symm, if_neg (by decide), if_pos rfl]
  split
  · next none => cases none.symm.trans h
  · next found =>
    obtain ⟨rfl, rfl⟩ := Prod.mk.inj (Option.some.inj (found.symm.trans h))
    rfl

theorem stringBody?_plain {mark c : Char} (plain : c ∉ ['\n', '\r', '\\', mark]) (s : List Char) :
    stringBody? mark (c :: s) = before [c] (stringBody? mark s) := by
  simp only [List.mem_cons, List.not_mem_nil, or_false, not_or] at plain
  obtain ⟨feed, ret, backslash, other⟩ := plain
  rw [stringBody?, if_neg other, if_neg (by simp [feed, ret]), if_neg backslash]

theorem IsReadable.stringBody?_eq {mark : Char} {code : Char → List Char}
    (h : IsReadable mark code) (other : mark ≠ '\\') (s rest : List Char) :
    stringBody? mark (s.flatMap code ++ mark :: rest) = some (s, rest) := by
  induction s with
  | nil => exact stringBody?_mark mark rest
  | cons c s ih =>
    rw [List.flatMap_cons, List.append_assoc]
    rcases h c with ⟨d, written, read⟩ | ⟨written, plain⟩
    · rw [written, List.cons_append, List.singleton_append, stringBody?_escape other (read _), ih]
      rfl
    · rw [written, List.singleton_append, stringBody?_plain plain, ih]
      rfl

theorem readsAs_doubleQuoted (s : String) : ReadsAs readString? (doubleQuoted s) s := by
  intro rest
  rw [doubleQuoted, toList_between, readString?, if_pos (.inl rfl)]
  exact isReadable_doubleQuotedChar.stringBody?_eq (by decide) s.toList rest

theorem readsAs_singleQuoted (s : String) : ReadsAs readString? (singleQuoted s) s := by
  intro rest
  rw [singleQuoted, toList_between, readString?, if_pos (.inr rfl)]
  exact isReadable_singleQuotedChar.stringBody?_eq (by decide) s.toList rest

/-! Templates -/

/-- The text with a line feed for each carriage return, and for each that stands before a line feed
with it. -/
def lineFed : List Char → List Char
  | [] => []
  | '\r' :: '\n' :: s => '\n' :: lineFed s
  | '\r' :: s => '\n' :: lineFed s
  | c :: s => c :: lineFed s

theorem templateBody?_escape {s text rest : List Char} (h : escape? s = some (text, rest)) :
    templateBody? ('\\' :: s) = before text (templateBody? rest) := by
  rw [templateBody?]
  split
  · next none => cases none.symm.trans h
  · next found =>
    obtain ⟨rfl, rfl⟩ := Prod.mk.inj (Option.some.inj (found.symm.trans h))
    rfl

theorem templateBody?_plain {c : Char} (plain : c ∉ ['\x60', '\\', '\r']) {s : List Char}
    (closed : ¬ (c = '$' ∧ s.head? = some '\x7b')) :
    templateBody? (c :: s) = before [c] (templateBody? s) := by
  simp only [List.mem_cons, List.not_mem_nil, or_false, not_or] at plain
  obtain ⟨mark, backslash, ret⟩ := plain
  rw [templateBody?]
  · exact mark
  · exact backslash
  · rintro rest rfl rfl
    exact closed ⟨rfl, rfl⟩
  · rintro rest rfl rfl
    exact ret rfl
  · exact ret

theorem templateBody?_return {s : List Char} (lone : s.head? ≠ some '\n') :
    templateBody? ('\r' :: s) = before ['\n'] (templateBody? s) := by
  rw [templateBody?]
  rintro rest rfl
  exact lone rfl

/-- A character that is no carriage return is read as itself. -/
theorem templateBody?_char {c : Char} (ret : c ≠ '\r') (s rest : List Char) :
    templateBody? (templateChars (c :: s) ++ '\x60' :: rest) =
      before [c] (templateBody? (templateChars s ++ '\x60' :: rest)) := by
  rw [templateChars_cons, List.append_assoc]
  split
  · next escaped =>
    rw [List.cons_append, List.singleton_append]
    apply templateBody?_escape
    rcases escaped with rfl | rfl | ⟨rfl, -⟩
    · exact escape?_single (by decide) rfl _
    · exact escape?_single (by decide) rfl _
    · exact escape?_single (by decide) rfl _
  · next plain =>
    obtain ⟨backslash, mark, closed⟩ : c ≠ '\\' ∧ c ≠ '\x60' ∧
        ¬ (c = '$' ∧ s.head? = some '\x7b') := by tauto
    rw [List.singleton_append]
    apply templateBody?_plain
    · simp [backslash, mark, ret]
    · exact fun opens => closed ⟨opens.1, head?_templateChars (by decide) opens.2⟩

theorem templateBody?_templateChars (s rest : List Char) :
    templateBody? (templateChars s ++ '\x60' :: rest) = some (lineFed s, rest) := by
  -- A carriage return is read with what follows it, so the cases are those of the expected value.
  induction s using lineFed.induct with
  | case1 => rw [templateChars, List.nil_append, templateBody?_mark, lineFed]
  | case2 s ih =>
    rw [templateChars_plain (by decide) (by decide) (by decide),
      templateChars_plain (by decide) (by decide) (by decide), List.cons_append, List.cons_append,
      templateBody?, ih, lineFed]
    rfl
  | case3 s lone ih =>
    have alone : (templateChars s ++ '\x60' :: rest).head? ≠ some '\n' := by
      intro feed
      obtain ⟨more, rfl⟩ := List.head?_eq_some_iff.mp (head?_templateChars (by decide) feed)
      exact lone more rfl
    rw [templateChars_plain (by decide) (by decide) (by decide), List.cons_append,
      templateBody?_return alone, ih, lineFed]
    · rfl
    · exact lone
  | case4 c s pair ret ih =>
    rw [templateBody?_char ret, ih, lineFed]
    · rfl
    · exact pair
    · exact ret

theorem readsAs_templateLiteral (s : String) :
    ReadsAs readTemplate? (templateLiteral s) (String.ofList (lineFed s.toList)) := by
  intro rest
  rw [templateLiteral, toList_between, readTemplate?, if_pos rfl, templateBody?_templateChars,
    String.toList_ofList]

/-! Keys -/

/-- A literal for a string begins with a mark, and no bare name does. -/
theorem doubleQuoted_not_isIdentifier (s : String) : isIdentifier (doubleQuoted s) = false := by
  rw [isIdentifier, doubleQuoted, String.toList_ofList, List.cons_append]
  rfl

theorem propertyKey_inj {s t : String} (h : propertyKey s = propertyKey t) : s = t := by
  unfold propertyKey at h
  split at h
  · next bare =>
    split at h
    · exact h
    · rw [h, doubleQuoted_not_isIdentifier] at bare
      cases bare
  · split at h
    · next bare =>
      rw [← h, doubleQuoted_not_isIdentifier] at bare
      cases bare
    · exact (readsAs_doubleQuoted s).value_inj (h ▸ readsAs_doubleQuoted t)

/-- What is to be said of the literals that are written for a text. -/
structure HoldsInLiterals (s : String) : Prop where
  double : ReadsAs readString? (doubleQuoted s) s
  single : ReadsAs readString? (singleQuoted s) s
  unbroken : IsLine (doubleQuoted s) ∧ IsLine (singleQuoted s)
  template : ReadsAs readTemplate? (templateLiteral s) (String.ofList (lineFed s.toList))
  /-- A key is a bare name that stands for itself, or else a literal. -/
  key : (isIdentifier s = true ∧ propertyKey s = s) ∨
    (isIdentifier s = false ∧ ReadsAs readString? (propertyKey s) s)
  otherKeys : ∀ t, t ≠ s → propertyKey t ≠ propertyKey s

/-- Literals hold the text that they are written for. -/
theorem literals_holdText (s : String) : HoldsInLiterals s where
  double := readsAs_doubleQuoted s
  single := readsAs_singleQuoted s
  unbroken := ⟨isLine_doubleQuoted s, isLine_singleQuoted s⟩
  template := readsAs_templateLiteral s
  key := by
    cases bare : isIdentifier s with
    | true => exact .inl ⟨rfl, if_pos bare⟩
    | false =>
      have quoted : propertyKey s = doubleQuoted s :=
        if_neg (by rw [bare]; exact Bool.false_ne_true)
      exact .inr ⟨rfl, quoted ▸ readsAs_doubleQuoted s⟩
  otherKeys := fun _ other same => other (propertyKey_inj same)

example : readTemplate? ((templateLiteral "\x60$\x7ba\x7d\x60\r\n$\r").toList ++ ['\n', '\x60']) =
    some ("\x60$\x7ba\x7d\x60\n$\n".toList, ['\n', '\x60']) := by decide +kernel

end GraphqlCrud.Script
