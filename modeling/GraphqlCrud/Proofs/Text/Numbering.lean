import Mathlib.Data.List.DropRight
import GraphqlCrud.Proofs.Text.Lines
import GraphqlCrud.Text.Position
/-!
Lines and columns as a numbering of the bytes of a text. Every offset has a place, in the middle of
a character too, and that place leads back to it. Whatever line and column are asked for, the answer
is an offset in the text, so that nothing outside of it is ever marked. Offsets, lines and columns
are machine words; those of a text in memory are too small for a sum of them to wrap around.
-/
namespace GraphqlCrud.Text

/-! The bytes of a text -/

def bytes (s : String) : List UInt8 := s.toByteArray.data.toList

def lineFeed : UInt8 := 10

theorem length_bytes (s : String) : (bytes s).length = s.utf8ByteSize := rfl

theorem bytes_append (s t : String) : bytes (s ++ t) = bytes s ++ bytes t := by
  rw [bytes, String.toByteArray_append, ByteArray.data_append, Array.toList_append]
  rfl

theorem bytes_eq_flatMap (s : String) : bytes s = s.toList.flatMap String.utf8EncodeChar := by
  rw [bytes, ← String.utf8Encode_toList, List.utf8Encode, List.toList_data_toByteArray]

/-- A byte of a character is the number of the character, or it is 128 at least. -/
theorem toNat_byte (c : Char) :
    ∀ b ∈ String.utf8EncodeChar c, b.toNat = c.toNat ∨ 128 ≤ b.toNat := by
  have number : c.toNat = c.val.toNat := rfl
  -- One case for each number of bytes.
  fun_cases String.utf8EncodeChar c with
  | _ =>
    simp only [List.forall_mem_cons, List.not_mem_nil, false_implies, implies_true, and_true,
      UInt8.toNat_ofNat', number]
    omega

/-- The byte of a line feed is part of no other character. -/
theorem lineFeed_notMem {s : String} (h : '\n' ∉ s.toList) : lineFeed ∉ bytes s := by
  rw [bytes_eq_flatMap, List.mem_flatMap]
  rintro ⟨c, hc, inside⟩
  have number : c.toNat = '\n'.toNat := by
    rcases toNat_byte c lineFeed inside with same | large
    · exact same.symm
    · exact absurd large (by decide)
  exact h (Char.toNat_inj.mp number ▸ hc)

/-! The places of offsets -/

/-- A line and a column, counted from one, whether or not a word holds them. -/
structure Coordinates where
  line : Nat
  column : Nat
deriving DecidableEq

/-- The place of an offset. Its line is one more than the line feeds before the offset, its column
one more than the bytes between the start of that line and the offset. -/
def placeOf (s : String) (offset : Nat) : Coordinates :=
  let before := (bytes s).take offset
  { line := before.count lineFeed + 1
    column := (before.rtakeWhile (· != lineFeed)).length + 1 }

-- The second byte of a character has a column of its own; an empty line has a single place.
example : (List.range 6).map (placeOf "é\n\nb") =
    [⟨1, 1⟩, ⟨1, 2⟩, ⟨1, 3⟩, ⟨2, 1⟩, ⟨3, 1⟩, ⟨3, 2⟩] := by decide

theorem one_le_placeOf_line (s : String) (offset : Nat) : 1 ≤ (placeOf s offset).line :=
  Nat.le_add_left 1 _

theorem one_le_placeOf_column (s : String) (offset : Nat) : 1 ≤ (placeOf s offset).column :=
  Nat.le_add_left 1 _

theorem rtakeWhile_append_cons {α : Type} {p : α → Bool} {x : α} (h : p x = false)
    (front back : List α) : (front ++ x :: back).rtakeWhile p = back.rtakeWhile p := by
  induction back using List.reverseRecOn with
  | nil => simp [h]
  | append_singleton back y ih =>
    rw [← List.cons_append, ← List.append_assoc, List.rtakeWhile_concat, List.rtakeWhile_concat, ih]

section

variable {line : String} {offset : Nat}

/-- Up to a line feed, the columns count the bytes. -/
theorem placeOf_append_of_le (h : '\n' ∉ line.toList) (within : offset ≤ line.utf8ByteSize)
    (rest : String) : placeOf (line ++ rest) offset = { line := 1, column := offset + 1 } := by
  rw [← length_bytes] at within
  have before : (bytes (line ++ rest)).take offset = (bytes line).take offset := by
    rw [bytes_append, List.take_append_of_le_length within]
  have feedless : lineFeed ∉ (bytes line).take offset :=
    fun feed => lineFeed_notMem h (List.mem_of_mem_take feed)
  have whole : ((bytes line).take offset).rtakeWhile (· != lineFeed) = (bytes line).take offset :=
    List.rtakeWhile_eq_self_iff.mpr fun b hb => bne_iff_ne.mpr fun feed => feedless (feed ▸ hb)
  rw [placeOf, before, whole, List.count_eq_zero.mpr feedless, List.length_take_of_le within]

theorem placeOf_of_unbroken (h : '\n' ∉ line.toList) (within : offset ≤ line.utf8ByteSize) :
    placeOf line offset = { line := 1, column := offset + 1 } := by
  simpa only [String.append_empty] using placeOf_append_of_le h within ""

/-- Behind a line feed, the places are those in the rest of the text, one line further. -/
theorem placeOf_append_add (h : '\n' ∉ line.toList) (rest : String) (offset : Nat) :
    placeOf (line ++ "\n" ++ rest) ((line ++ "\n").utf8ByteSize + offset) =
      { line := (placeOf rest offset).line + 1, column := (placeOf rest offset).column } := by
  have feed : bytes "\n" = [lineFeed] := rfl
  have before : (bytes (line ++ "\n" ++ rest)).take ((line ++ "\n").utf8ByteSize + offset) =
      bytes line ++ lineFeed :: (bytes rest).take offset := by
    rw [bytes_append, ← length_bytes, List.take_length_add_append, bytes_append, feed,
      List.append_assoc, List.singleton_append]
  rw [placeOf, before, rtakeWhile_append_cons (by simp), List.count_append,
    List.count_eq_zero.mpr (lineFeed_notMem h), List.count_cons_self, Nat.zero_add]
  rfl

end

/-! The starts of lines -/

theorem lineSizes_of_unbroken {line : String} (h : '\n' ∉ line.toList) :
    lineSizes line = [line.utf8ByteSize] := by
  rw [lineSizes, List.splitOn_eq_singleton h]
  simp

theorem lineSizes_append {line : String} (h : '\n' ∉ line.toList) (rest : String) :
    lineSizes (line ++ "\n" ++ rest) = (line ++ "\n").utf8ByteSize :: lineSizes rest := by
  have chars : (line ++ "\n" ++ rest).toList = line.toList ++ '\n' :: rest.toList := by simp
  have feed : "\n".utf8ByteSize = 1 := rfl
  obtain ⟨part, others, parts⟩ :=
    List.exists_cons_of_ne_nil (List.splitOn_ne_nil '\n' rest.toList)
  rw [lineSizes, lineSizes, chars, List.splitOn_append_cons_self, List.splitOn_eq_singleton h, parts]
  simp [String.utf8ByteSize_append, feed]

theorem lineSizes_ne_nil (s : String) : lineSizes s ≠ [] := by
  induction s using line_induction with
  | last line h => simp [lineSizes_of_unbroken h]
  | ended line rest h ih => simp [lineSizes_append h]

theorem lineStart_one (s : String) : lineStart s 1 = 0 := rfl

theorem lineStart_append {line : String} (h : '\n' ∉ line.toList) (rest : String) {n : Nat}
    (counts : 1 ≤ n) :
    lineStart (line ++ "\n" ++ rest) (n + 1) = (line ++ "\n").utf8ByteSize + lineStart rest n := by
  obtain ⟨n, rfl⟩ := Nat.exists_eq_add_of_le' counts
  rw [lineStart, lineSizes_append h, lineStart, Nat.add_sub_cancel, Nat.add_sub_cancel,
    List.take_succ_cons, List.foldl_cons, Nat.add_comm 0]
  exact List.foldl_assoc

theorem lineStart_le (s : String) (n : Nat) : lineStart s n ≤ s.utf8ByteSize := by
  induction s using line_induction generalizing n with
  | last line h =>
    rw [lineStart, lineSizes_of_unbroken h]
    cases n - 1 <;> simp
  | ended line rest h ih =>
    match n with
    | 0 | 1 => exact Nat.zero_le _
    | n + 2 =>
      rw [lineStart_append h rest (Nat.le_add_left 1 n), String.utf8ByteSize_append (t := rest)]
      exact Nat.add_le_add_left (ih (n + 1)) _

/-- An offset is as far behind the start of its line as its column says. -/
theorem lineStart_placeOf {s : String} {offset : Nat} (within : offset ≤ s.utf8ByteSize) :
    lineStart s (placeOf s offset).line + (placeOf s offset).column = offset + 1 := by
  induction s using line_induction generalizing offset with
  | last line h => rw [placeOf_of_unbroken h within, lineStart_one, Nat.zero_add]
  | ended line rest h ih =>
    -- The offset right before the line feed still belongs to its line.
    rcases Nat.lt_or_ge line.utf8ByteSize offset with behind | inLine
    · obtain ⟨offset, rfl⟩ : ∃ k, offset = (line ++ "\n").utf8ByteSize + k :=
        Nat.exists_eq_add_of_le (String.utf8ByteSize_append ▸ behind)
      rw [String.utf8ByteSize_append (t := rest), Nat.add_le_add_iff_left] at within
      rw [placeOf_append_add h]
      dsimp only
      rw [lineStart_append h rest (one_le_placeOf_line rest offset), Nat.add_assoc, ih within,
        Nat.add_assoc]
    · rw [String.append_assoc, placeOf_append_of_le h inLine, lineStart_one, Nat.zero_add]

theorem placeOf_line_le (s : String) (offset : Nat) : (placeOf s offset).line ≤ offset + 1 :=
  Nat.succ_le_succ (List.count_le_length.trans (List.length_take_le offset _))

/-! Sums of words -/

/-- A text that can be in memory: it takes fewer than half of the addresses. -/
def FitsMemory (s : String) : Prop := 2 * s.utf8ByteSize < USize.size

theorem FitsMemory.double_succ_le {s : String} (fits : FitsMemory s) :
    2 * (s.utf8ByteSize + 1) ≤ USize.size := by
  rw [FitsMemory] at fits
  rcases USize.size_eq with size | size <;> omega

theorem toNat_add_of_lt {a b : USize} (h : a.toNat + b.toNat < USize.size) :
    (a + b).toNat = a.toNat + b.toNat := by
  rw [USize.toNat_add]
  exact Nat.mod_eq_of_lt h

theorem toNat_min (a b : USize) : (min a b).toNat = min a.toNat b.toNat := by
  change (if a ≤ b then a else b).toNat = _
  split
  · next le => exact (Nat.min_eq_left (USize.le_iff_toNat_le.mp le)).symm
  · next lt =>
    exact (Nat.min_eq_right (Nat.le_of_not_le fun le => lt (USize.le_iff_toNat_le.mpr le))).symm

theorem toNat_inLine (column : USize) :
    (if column = 0 then 0 else column - 1).toNat = column.toNat - 1 := by
  split
  · next zero =>
    rw [zero]
    rfl
  · next nonzero =>
    have positive : 1 ≤ column := by
      rw [USize.le_iff_toNat_le, USize.toNat_one, Nat.one_le_iff_ne_zero]
      exact fun zero => nonzero (USize.toNat_inj.mp zero)
    rw [USize.toNat_sub_of_le _ _ positive, USize.toNat_one]

/-! Offsets of places -/

section

variable {s : String} {line column : USize} {offset : Nat}

theorem exists_offsetOf? (s : String) (counts : line ≠ 0) (column : USize) :
    ∃ offset, offsetOf? s line column = some offset :=
  ⟨_, if_neg counts⟩

theorem offsetOf?_le {offset : USize} (h : offsetOf? s line column = some offset) :
    offset.toNat ≤ s.utf8ByteSize := by
  rw [offsetOf?] at h
  split at h
  · cases h
  · obtain rfl := Option.some.inj h
    rw [toNat_min, USize.toNat_ofNat']
    exact (Nat.min_le_right _ _).trans (Nat.mod_le _ _)

/-- No column up to half of the words is too large for the sum. -/
theorem lineStart_add_lt (fits : FitsMemory s) (half : 2 * column.toNat ≤ USize.size) (n : Nat) :
    lineStart s n + (column.toNat - 1) < USize.size := by
  have start := lineStart_le s n
  have room := fits.double_succ_le
  omega

theorem toNat_offsetOf? (fits : FitsMemory s) (counts : line ≠ 0)
    (half : 2 * column.toNat ≤ USize.size) :
    (offsetOf? s line column).map (·.toNat) =
      some (min (lineStart s line.toNat + (column.toNat - 1)) s.utf8ByteSize) := by
  have sum := lineStart_add_lt fits half line.toNat
  have room := fits.double_succ_le
  have start : (lineStart s line.toNat).toUSize.toNat = lineStart s line.toNat :=
    USize.toNat_ofNat_of_lt' (by omega)
  have size : s.utf8ByteSize.toUSize.toNat = s.utf8ByteSize :=
    USize.toNat_ofNat_of_lt' (by omega)
  rw [offsetOf?, if_neg counts, Option.map_some, toNat_min, toNat_add_of_lt, toNat_inLine, start,
    size]
  rwa [toNat_inLine, start]

theorem placeOf_column_le (within : offset ≤ s.utf8ByteSize) :
    (placeOf s offset).column ≤ offset + 1 := by
  have distance := lineStart_placeOf within
  omega

/-- From the line of an offset, a column that is not past it leads as far as the column says. -/
theorem toNat_offsetOf?_placeOf_line (fits : FitsMemory s) (within : offset ≤ s.utf8ByteSize)
    {k : Nat} (before : k ≤ (placeOf s offset).column) :
    (offsetOf? s (placeOf s offset).line.toUSize k.toUSize).map (·.toNat) =
      some (lineStart s (placeOf s offset).line + (k - 1)) := by
  have room := fits.double_succ_le
  have distance := lineStart_placeOf within
  have filled := one_le_placeOf_column s offset
  have counts := one_le_placeOf_line s offset
  have lines := placeOf_line_le s offset
  have lineWord : (placeOf s offset).line.toUSize.toNat = (placeOf s offset).line :=
    USize.toNat_ofNat_of_lt' (by omega)
  have columnWord : k.toUSize.toNat = k := USize.toNat_ofNat_of_lt' (by omega)
  have nonzero : (placeOf s offset).line.toUSize ≠ 0 := by
    intro zero
    rw [zero, USize.toNat_zero] at lineWord
    omega
  rw [toNat_offsetOf? fits nonzero (by omega), lineWord, columnWord, Nat.min_eq_left (by omega)]

theorem offsetOf?_placeOf (fits : FitsMemory s) (within : offset ≤ s.utf8ByteSize) :
    (offsetOf? s (placeOf s offset).line.toUSize (placeOf s offset).column.toUSize).map
      (·.toNat) = some offset := by
  have distance := lineStart_placeOf within
  have filled := one_le_placeOf_column s offset
  rw [toNat_offsetOf?_placeOf_line fits within le_rfl, ← Nat.add_sub_assoc filled, distance,
    Nat.add_sub_cancel]

end

/-! The end of a text -/

theorem endPosition_eq (s : String) : endPosition s =
    { line := (placeOf s s.utf8ByteSize).line.toUSize
      column := ((placeOf s s.utf8ByteSize).column - 1).toUSize } := by
  suffices sizes : (lineSizes s).length = (placeOf s s.utf8ByteSize).line ∧
      (lineSizes s).getLast?.getD 0 = (placeOf s s.utf8ByteSize).column - 1 by
    rw [endPosition, sizes.1, sizes.2]
  induction s using line_induction with
  | last line h =>
    rw [placeOf_of_unbroken h le_rfl, lineSizes_of_unbroken h]
    exact ⟨rfl, rfl⟩
  | ended line rest h ih =>
    obtain ⟨first, others, sizes⟩ := List.exists_cons_of_ne_nil (lineSizes_ne_nil rest)
    rw [sizes] at ih
    rw [String.utf8ByteSize_append, placeOf_append_add h, lineSizes_append h, sizes,
      List.length_cons, List.getLast?_cons_cons]
    exact ⟨congrArg (· + 1) ih.1, ih.2⟩

/-- The offset of the last byte of a text, or the end of the text when there is no byte on its last
line. -/
def lastOffset (s : String) : Nat :=
  s.utf8ByteSize - min ((placeOf s s.utf8ByteSize).column - 1) 1

theorem spanAt?_endPosition {s : String} (fits : FitsMemory s) :
    spanAt? s (endPosition s) = some { start := lastOffset s, stop := lastOffset s } := by
  have distance := lineStart_placeOf (Nat.le_refl s.utf8ByteSize)
  have filled := one_le_placeOf_column s s.utf8ByteSize
  have found := toNat_offsetOf?_placeOf_line fits (Nat.le_refl s.utf8ByteSize)
    (Nat.sub_le (placeOf s s.utf8ByteSize).column 1)
  have last : lineStart s (placeOf s s.utf8ByteSize).line +
      ((placeOf s s.utf8ByteSize).column - 1 - 1) = lastOffset s := by
    rw [lastOffset]
    omega
  rw [last, Option.map_eq_some_iff] at found
  obtain ⟨offset, found, same⟩ := found
  rw [endPosition_eq, spanAt?, found, Option.map_some, same]

/-- How the lines and columns of a text number its bytes. -/
structure NumbersBytes (s : String) : Prop where
  /-- The line and the column of an offset are words. -/
  placesFit : ∀ offset ≤ s.utf8ByteSize,
    (placeOf s offset).line < USize.size ∧ (placeOf s offset).column < USize.size
  leadsBack : ∀ offset ≤ s.utf8ByteSize,
    (offsetOf? s (placeOf s offset).line.toUSize (placeOf s offset).column.toUSize).map
      (·.toNat) = some offset
  staysInside : ∀ line column : USize, line ≠ 0 →
    ∃ offset, offsetOf? s line column = some offset ∧ offset.toNat ≤ s.utf8ByteSize
  /-- Only a column of more than half of the words can make the sum wrap around. -/
  sumsUp : ∀ line column : USize, line ≠ 0 → 2 * column.toNat ≤ USize.size →
    lineStart s line.toNat + (column.toNat - 1) < USize.size ∧
      (offsetOf? s line column).map (·.toNat) =
        some (min (lineStart s line.toNat + (column.toNat - 1)) s.utf8ByteSize)
  startsInside : ∀ line, lineStart s line ≤ s.utf8ByteSize
  marksInside : ∀ place span, spanAt? s place = some span →
    span.start ≤ span.stop ∧ span.stop ≤ s.utf8ByteSize
  /-- A reader that has come to the end of a text marks its last byte, or the end itself when there
  is no byte on the last line. -/
  atEnd : spanAt? s (endPosition s) = some { start := lastOffset s, stop := lastOffset s }

theorem offsetOf?_numbersBytes {s : String} (fits : FitsMemory s) : NumbersBytes s := by
  have room := fits.double_succ_le
  refine { placesFit := ?_, leadsBack := fun _ => offsetOf?_placeOf fits, staysInside := ?_,
           sumsUp := ?_, startsInside := lineStart_le s, marksInside := ?_,
           atEnd := spanAt?_endPosition fits }
  · intro offset within
    have line := placeOf_line_le s offset
    have column := placeOf_column_le within
    omega
  · intro line column counts
    obtain ⟨offset, found⟩ := exists_offsetOf? s counts column
    exact ⟨offset, found, offsetOf?_le found⟩
  · intro line column counts half
    exact ⟨lineStart_add_lt fits half _, toNat_offsetOf? fits counts half⟩
  · intro place span marked
    obtain ⟨offset, found, rfl⟩ := Option.map_eq_some_iff.mp marked
    exact ⟨Nat.le_refl offset.toNat, offsetOf?_le found⟩

theorem accented_numbersBytes : FitsMemory "é\n\nb" ∧ NumbersBytes "é\n\nb" := by
  have fits : FitsMemory "é\n\nb" := lt_of_lt_of_le (by decide) USize.le_size
  exact ⟨fits, offsetOf?_numbersBytes fits⟩

end GraphqlCrud.Text
