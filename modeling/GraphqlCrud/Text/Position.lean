/-!
Positions in a text, counted in UTF-8 bytes. Lines and columns count from one; a line feed is the
last byte of its own line.
-/
namespace GraphqlCrud.Text

/-- The byte lengths of the lines, each with the line feed that ends it. -/
def lineSizes (s : String) : List Nat :=
  match (s.toList.splitOn '\n').map fun line => (String.ofList line).utf8ByteSize with
  | [] => []
  | sizes => sizes.dropLast.map (· + 1) ++ sizes.getLast?.toList

/-- The byte offset at which a line starts. A line behind the last one starts at the end of the text. -/
def lineStart (s : String) (line : Nat) : Nat :=
  ((lineSizes s).take (line - 1)).foldl (· + ·) 0

/-- The byte offset of a line and column, never past the end of the text. There is no line zero.
Offsets are machine words: a sum that no word holds wraps around. -/
def offsetOf? (s : String) (line column : USize) : Option USize :=
  if line = 0 then none
  else
    let inLine := if column = 0 then 0 else column - 1
    some (min ((lineStart s line.toNat).toUSize + inLine) s.utf8ByteSize.toUSize)

structure Position where
  line : USize
  column : USize
deriving Repr, DecidableEq

/-- The place reached after reading the whole text: the column is the number of bytes since the
last line feed. -/
def endPosition (s : String) : Position :=
  let sizes := lineSizes s
  { line := sizes.length.toUSize, column := (sizes.getLast?.getD 0).toUSize }

structure Span where
  start : Nat
  stop : Nat
deriving Repr, DecidableEq

/-- The empty span at the place where a reader of the text has stopped; line zero is no place. -/
def spanAt? (s : String) (place : Position) : Option Span :=
  (offsetOf? s place.line place.column).map fun offset =>
    { start := offset.toNat, stop := offset.toNat }

end GraphqlCrud.Text
