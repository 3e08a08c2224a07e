import GraphqlCrud.Toml.Assembly
import GraphqlCrud.Toml.Scalar
import GraphqlCrud.Toml.Text
/-!
Reading a TOML 1.1 document: from the text to statements, and from the statements to one table. A
text that is no document gives nothing, and so does one that nests deeper than it may.
-/
namespace GraphqlCrud.Toml

def isTomlBlank (c : Char) : Bool := c == ' ' || c == '\t'

def skipBlanks (s : List Char) : List Char := s.dropWhile isTomlBlank

def skipFiller (inComment : Bool) : List Char → Option (List Char)
  | [] => some []
  | '\n' :: rest => skipFiller false rest
  | '\r' :: '\n' :: rest => skipFiller false rest
  | c :: rest =>
    if inComment then if isPlain c then skipFiller true rest else none
    else if isTomlBlank c then skipFiller false rest
    else if c = '#' then skipFiller true rest
    else some (c :: rest)

/-- The rest of a line after its statement: blanks, a comment if there is one, and the line's end. -/
def lineEnd (inComment : Bool) : List Char → Option (List Char)
  | [] => some []
  | '\n' :: rest => some rest
  | '\r' :: '\n' :: rest => some rest
  | c :: rest =>
    if inComment then if isPlain c then lineEnd true rest else none
    else if isTomlBlank c then lineEnd false rest
    else if c = '#' then lineEnd true rest
    else none

def isBareKeyChar (c : Char) : Bool := c.isAlphanum || c == '_' || c == '-'

def keyPart? : List Char → Option (String × List Char)
  | '"' :: rest => (basicText rest).map fun (key, rest) => (String.ofList key, rest)
  | '\'' :: rest => (literalText rest).map fun (key, rest) => (String.ofList key, rest)
  | s =>
    match s.span isBareKeyChar with
    | ([], _) => none
    | (key, rest) => some (String.ofList key, rest)

/-- The parts of a key, which are separated by dots, and what follows them and the blanks after
them. -/
def keyParts? : Nat → List Char → Option (List String × List Char)
  | 0, _ => none
  | supply + 1, s => do
    let (part, rest) ← keyPart? s
    match skipBlanks rest with
    | '.' :: rest =>
      let (parts, rest) ← keyParts? supply (skipBlanks rest)
      some (part :: parts, rest)
    | rest => some ([part], rest)

def keyPath? (depth supply : Nat) (s : List Char) : Option (List String × List Char) := do
  let (path, rest) ← keyParts? supply s
  if path.length ≤ depth then some (path, rest) else none

/-- The start of a value: a string is read whole, and so is a word. -/
def scalar? : List Char → Option (Value × List Char)
  | '"' :: '"' :: '"' :: rest => do
    let (content, rest) ← basicLines .text (dropFirstBreak rest)
    some (.text (String.ofList content), rest)
  | '\'' :: '\'' :: '\'' :: rest => do
    let (content, rest) ← literalLines (dropFirstBreak rest)
    some (.text (String.ofList content), rest)
  | '"' :: rest => do
    let (content, rest) ← basicText rest
    some (.text (String.ofList content), rest)
  | '\'' :: rest => do
    let (content, rest) ← literalText rest
    some (.text (String.ofList content), rest)
  | s => do
    let (word, rest) := takeWord s
    let value ← valueOfWord? word
    some (value, rest)

theorem scalar?_of_basicLines {s content rest : List Char}
    (read : basicLines .text (dropFirstBreak s) = some (content, rest)) :
    scalar? ('"' :: '"' :: '"' :: s) = some (.text (String.ofList content), rest) := by
  rw [scalar?, read]
  rfl

theorem scalar?_of_literalLines {s content rest : List Char}
    (read : literalLines (dropFirstBreak s) = some (content, rest)) :
    scalar? ('\'' :: '\'' :: '\'' :: s) = some (.text (String.ofList content), rest) := by
  rw [scalar?, read]
  rfl

mutual
/-- A value, and what follows it. `room` tells how many more brackets and braces may open. -/
def value? (depth : Nat) : Nat → Nat → List Char → Option (Value × List Char)
  | 0, _, _ => none
  | supply + 1, room, s =>
    match s, room with
    | '[' :: _, 0 => none
    | '\x7b' :: _, 0 => none
    | '[' :: rest, room + 1 => do
      let (items, rest) ← items? depth supply room rest
      some (.array items false, rest)
    | '\x7b' :: rest, room + 1 => do
      let (pairs, rest) ← pairs? depth supply room rest
      some (← bracedTable? pairs, rest)
    | s, _ => scalar? s

/-- The items of an array and its closing bracket. A comma may stand after the last item. -/
def items? (depth : Nat) : Nat → Nat → List Char → Option (List Value × List Char)
  | 0, _, _ => none
  | supply + 1, room, s => do
    match ← skipFiller false s with
    | ']' :: rest => some ([], rest)
    | s =>
      let (item, rest) ← value? depth supply room s
      match ← skipFiller false rest with
      | ',' :: rest =>
        let (items, rest) ← items? depth supply room rest
        some (item :: items, rest)
      | ']' :: rest => some ([item], rest)
      | _ => none

/-- The keys and values of a table in braces and its closing brace. A comma may stand after the last
value, and line breaks and comments anywhere but inside a key. -/
def pairs? (depth : Nat) : Nat → Nat → List Char → Option (List (List String × Value) × List Char)
  | 0, _, _ => none
  | supply + 1, room, s => do
    match ← skipFiller false s with
    | '\x7d' :: rest => some ([], rest)
    | s =>
      let (path, rest) ← keyPath? depth supply s
      match ← skipFiller false rest with
      | '=' :: rest =>
        let (value, rest) ← value? depth supply room (← skipFiller false rest)
        match ← skipFiller false rest with
        | ',' :: rest =>
          let (pairs, rest) ← pairs? depth supply room rest
          some ((path, value) :: pairs, rest)
        | '\x7d' :: rest => some ([(path, value)], rest)
        | _ => none
      | _ => none
end

def statement? (depth supply : Nat) : List Char → Option (Statement × List Char)
  | '[' :: '[' :: rest => do
    match ← keyPath? depth supply (skipBlanks rest) with
    | (path, ']' :: ']' :: rest) => some (.arrayHeader path, rest)
    | _ => none
  | '[' :: rest => do
    match ← keyPath? depth supply (skipBlanks rest) with
    | (path, ']' :: rest) => some (.header path, rest)
    | _ => none
  | s => do
    match ← keyPath? depth supply s with
    | (path, '=' :: rest) =>
      let (value, rest) ← value? depth supply depth (skipBlanks rest)
      some (.pair path value, rest)
    | _ => none

def statements? (depth : Nat) : Nat → List Char → Option (List Statement)
  | 0, _ => none
  | supply + 1, s => do
    match ← skipFiller false s with
    | [] => some []
    | s =>
      let (statement, rest) ← statement? depth (2 * s.length + 2) s
      let rest ← lineEnd false rest
      let more ← statements? depth supply rest
      some (statement :: more)

/-- A byte order mark at the beginning of a text is not part of the document. -/
def dropByteOrderMark : List Char → List Char
  | '\ufeff' :: rest => rest
  | s => s

/-- The entries of a document in which at most `depth` brackets and braces are open at one place and
no key has more parts. -/
def readWithin? (depth : Nat) (text : String) : Option Entries := do
  let s := dropByteOrderMark text.toList
  assemble? (← statements? depth (s.length + 1) s)

def maxDepth : Nat := 80

def read? (text : String) : Option Entries := readWithin? maxDepth text

end GraphqlCrud.Toml
