/-!
JSON laid out over several lines: each item of a list and each member of an object has a line of its
own, two blanks deeper than the brackets around it.
-/
namespace GraphqlCrud.Json

/-- A value in writing: its text, given how deep it stands. -/
abbrev Written := Nat → String

def controlDigits (c : Char) : List Char :=
  let digit := fun (n : Nat) => Nat.digitChar (n % 16)
  [digit (c.toNat / 16), digit c.toNat]

/-- A character inside quotes. Only quotes, backslashes and control characters are escaped. -/
def escaped : Char → List Char
  | '"' => ['\\', '"']
  | '\\' => ['\\', '\\']
  | '\x08' => ['\\', 'b']
  | '\x0c' => ['\\', 'f']
  | '\n' => ['\\', 'n']
  | '\r' => ['\\', 'r']
  | '\t' => ['\\', 't']
  | c => if c.toNat < 0x20 then '\\' :: 'u' :: '0' :: '0' :: controlDigits c else [c]

def quoted (s : String) : String := "\"" ++ String.ofList (s.toList.flatMap escaped) ++ "\""

namespace Written

def text (s : String) : Written := fun _ => quoted s

def null : Written := fun _ => "null"

def margin (depth : Nat) : String := String.ofList (List.replicate (2 * depth) ' ')

/-- Lines between brackets; without lines the brackets touch. -/
def enclosed (opening closing : String) (lines : List Written) : Written := fun depth =>
  if lines.isEmpty then opening ++ closing
  else
    opening ++ "\n" ++
      ",\n".intercalate (lines.map fun line => margin (depth + 1) ++ line (depth + 1)) ++
      "\n" ++ margin depth ++ closing

def list (items : List Written) : Written := enclosed "[" "]" items

def texts (items : List String) : Written := list (items.map text)

def object (members : List (String × Written)) : Written :=
  enclosed "\x7b" "\x7d" (members.map fun (key, value) => fun depth =>
    quoted key ++ ": " ++ value depth)

end Written
end GraphqlCrud.Json
