/-!
TOML strings. The functions take what follows the opening quotes and give the content and what
follows the closing quotes.
-/
namespace GraphqlCrud.Toml

/-- Characters that a string or a comment may hold besides line breaks: no control characters but
the tab. -/
def isPlain (c : Char) : Bool := c == '\t' || (0x20 ≤ c.toNat && c.toNat != 0x7F)

abbrev TextResult := Option (List Char × List Char)

def TextResult.push (c : Char) (r : TextResult) : TextResult :=
  r.map fun (content, rest) => (c :: content, rest)

def hexValue? (c : Char) : Option Nat :=
  if '0' ≤ c ∧ c ≤ '9' then some (c.toNat - '0'.toNat)
  else if 'a' ≤ c ∧ c ≤ 'f' then some (c.toNat - 'a'.toNat + 10)
  else if 'A' ≤ c ∧ c ≤ 'F' then some (c.toNat - 'A'.toNat + 10)
  else none

def charOfHex? (digits : List Char) : Option Char := do
  let values ← digits.mapM hexValue?
  let n := values.foldl (fun n v => 16 * n + v) 0
  if n.isValidChar then some (Char.ofNat n) else none

def shortEscape? : Char → Option Char
  | 'b' => some '\x08'
  | 't' => some '\t'
  | 'n' => some '\n'
  | 'e' => some '\x1b'
  | 'f' => some '\x0c'
  | 'r' => some '\r'
  | '"' => some '"'
  | '\\' => some '\\'
  | _ => none

def basicText : List Char → TextResult
  | '"' :: rest => some ([], rest)
  | '\\' :: 'x' :: a :: b :: rest =>
    match charOfHex? [a, b] with
    | some x => (basicText rest).push x
    | none => none
  | '\\' :: 'u' :: a :: b :: c :: d :: rest =>
    match charOfHex? [a, b, c, d] with
    | some x => (basicText rest).push x
    | none => none
  | '\\' :: 'U' :: a :: b :: c :: d :: e :: f :: g :: h :: rest =>
    match charOfHex? [a, b, c, d, e, f, g, h] with
    | some x => (basicText rest).push x
    | none => none
  | '\\' :: c :: rest =>
    match shortEscape? c with
    | some x => (basicText rest).push x
    | none => none
  | c :: rest => if isPlain c && c != '\\' then (basicText rest).push c else none
  | [] => none

theorem basicText_quote (rest : List Char) : basicText ('"' :: rest) = some ([], rest) := by
  rw [basicText]

/-- A string between single quotes: nothing is escaped. -/
def literalText : List Char → TextResult
  | '\'' :: rest => some ([], rest)
  | c :: rest => if isPlain c then (literalText rest).push c else none
  | [] => none

theorem literalText_quote (rest : List Char) : literalText ('\'' :: rest) = some ([], rest) := by
  rw [literalText]

/-- A line break directly after the opening quotes is not part of the content. -/
def dropFirstBreak : List Char → List Char
  | '\n' :: rest => rest
  | '\r' :: '\n' :: rest => rest
  | s => s

/-- The closing quotes of a string of several lines: three quotes close it, and one or two more
directly after them are its last characters. -/
def closing? (quote : Char) (s : List Char) : TextResult :=
  let run := (s.takeWhile (· == quote)).length
  if run < 3 then none
  else
    let extra := min (run - 3) 2
    some (List.replicate extra quote, s.drop (3 + extra))

/-- How the characters of a string of several lines are read: as they are, or, after a backslash at
the end of a line, not before the next character that is no white space. -/
inductive LineMode where
  | text
  | joining
deriving DecidableEq

/-- Whether a backslash ends its line: only blanks stand before the line break. -/
def endsLine : List Char → Bool
  | ' ' :: rest => endsLine rest
  | '\t' :: rest => endsLine rest
  | '\n' :: _ => true
  | '\r' :: '\n' :: _ => true
  | _ => false

def basicLines (mode : LineMode) : List Char → TextResult
  | '"' :: rest =>
    match closing? '"' ('"' :: rest) with
    | some found => some found
    | none => (basicLines .text rest).push '"'
  | '\\' :: 'x' :: a :: b :: rest =>
    match charOfHex? [a, b] with
    | some x => (basicLines .text rest).push x
    | none => none
  | '\\' :: 'u' :: a :: b :: c :: d :: rest =>
    match charOfHex? [a, b, c, d] with
    | some x => (basicLines .text rest).push x
    | none => none
  | '\\' :: 'U' :: a :: b :: c :: d :: e :: f :: g :: h :: rest =>
    match charOfHex? [a, b, c, d, e, f, g, h] with
    | some x => (basicLines .text rest).push x
    | none => none
  | '\\' :: c :: rest =>
    if endsLine (c :: rest) then basicLines .joining rest
    else
      match shortEscape? c with
      | some x => (basicLines .text rest).push x
      | none => none
  | '\r' :: '\n' :: rest =>
    if mode = .joining then basicLines .joining rest
    else ((basicLines .text rest).push '\n').push '\r'
  | c :: rest =>
    if mode = .joining && (c == ' ' || c == '\t' || c == '\n') then basicLines .joining rest
    else if (isPlain c || c == '\n') && c != '\\' then (basicLines .text rest).push c
    else none
  | [] => none

theorem basicLines_closed {s : List Char} {found : List Char × List Char}
    (closed : closing? '"' ('"' :: s) = some found) (mode : LineMode) :
    basicLines mode ('"' :: s) = some found := by
  rw [basicLines, closed]

def literalLines : List Char → TextResult
  | '\'' :: rest =>
    match closing? '\'' ('\'' :: rest) with
    | some found => some found
    | none => (literalLines rest).push '\''
  | '\r' :: '\n' :: rest => ((literalLines rest).push '\n').push '\r'
  | c :: rest => if isPlain c || c == '\n' then (literalLines rest).push c else none
  | [] => none

theorem literalLines_closed {s : List Char} {found : List Char × List Char}
    (closed : closing? '\'' ('\'' :: s) = some found) : literalLines ('\'' :: s) = some found := by
  rw [literalLines, closed]

end GraphqlCrud.Toml
