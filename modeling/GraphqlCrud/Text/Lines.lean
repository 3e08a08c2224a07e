/-!
The lines of a text. A line feed ends a line, and a carriage return directly before it belongs to
the line's end. A carriage return anywhere else is a character like any other, and a final line
feed opens no further line.
-/
namespace GraphqlCrud.Text

/-- A line without the carriage return of its ending. -/
def dropCarriageReturn (line : List Char) : List Char :=
  if line.getLast? = some '\r' then line.dropLast else line

/-- The lines among the parts between line feeds: every part but the last was ended by one, and
the last is a line only when it holds something. -/
def linesOfParts : List (List Char) → List (List Char)
  | [] => []
  | [last] => if last.isEmpty then [] else [last]
  | part :: rest => dropCarriageReturn part :: linesOfParts rest

def lines (s : String) : List String :=
  (linesOfParts (s.toList.splitOn '\n')).map String.ofList

end GraphqlCrud.Text
