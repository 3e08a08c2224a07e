import GraphqlCrud.Json.Number
import GraphqlCrud.Json.Text
/-!
From a text to a tree. Every call takes one unit from a supply that is larger than the calls a
text can cause, because two calls in a row always use up a character.
-/
namespace GraphqlCrud.Json

def isSpace (c : Char) : Bool := c == ' ' || c == '\n' || c == '\t' || c == '\r'

def skipSpace (s : List Char) : List Char := s.dropWhile isSpace

def restOfWord : List Char → List Char → Except Defect (List Char)
  | [], s => .ok s
  | _ :: _, [] => .error .cutShort
  | a :: word, c :: s => if a = c then restOfWord word s else .error .malformed

def wordTree (word : List Char) (value : Tree) (s : List Char) : Tree × List Char :=
  match restOfWord word s with
  | .ok rest => (value, rest)
  | .error d => (.broken .bare d d, [])

def numberTree (s : List Char) : Tree × List Char :=
  match number s with
  | .ok (fault, rest) => (.number fault, rest)
  | .error stump => (.broken .bare stump.reading stump.passing, [])

/-- The defect of a reading; `passing` when there is none. -/
def readingDefect {α : Type} (r : Except Defect α) (passing : Defect) : Defect :=
  match r with
  | .error d => d
  | .ok _ => passing

def textTree (s : List Char) : Tree × List Char :=
  match passText s with
  | .ok rest => (.text ((readText s).map fun (content, _) => String.ofList content), rest)
  | .error d => (.broken .quoted (readingDefect (readText s) d) d, [])

mutual
/-- The first value of a text, and what follows it. Nothing follows a broken value. -/
def valueTree : Nat → List Char → Tree × List Char
  | 0, _ => (.broken .absent .cutShort .cutShort, [])
  | supply + 1, s =>
    match skipSpace s with
    | [] => (.broken .absent .cutShort .cutShort, [])
    | '\x7b' :: rest =>
      let (entries, close, rest) := entryTrees supply true rest
      (.object entries close, rest)
    | '[' :: rest =>
      let (items, close, rest) := itemTrees supply true rest
      (.array items close, rest)
    | '"' :: rest => textTree rest
    | 't' :: rest => wordTree ['r', 'u', 'e'] (.flag true) rest
    | 'f' :: rest => wordTree ['a', 'l', 's', 'e'] (.flag false) rest
    | 'n' :: rest => wordTree ['u', 'l', 'l'] .null rest
    | '-' :: rest => numberTree rest
    | c :: rest =>
      if c.isDigit then numberTree (c :: rest)
      else (.broken .absent .malformed .malformed, [])

/-- The items of a list up to its end. Before every item but the first stands a comma. -/
def itemTrees : Nat → Bool → List Char → List Tree × Close × List Char
  | 0, _, _ => ([], .unclosed .cutShort, [])
  | supply + 1, isFirst, s =>
    match skipSpace s with
    | [] => ([], .unclosed .cutShort, [])
    | ']' :: rest => ([], .closed, rest)
    | c :: rest =>
      if isFirst || c = ',' then
        let (item, rest) := valueTree supply (if isFirst then c :: rest else rest)
        let (items, close, rest) := itemTrees supply false rest
        (item :: items, close, rest)
      else ([], .unclosed .malformed, [])

/-- The entries of an object up to its end. Before every entry but the first stands a comma. -/
def entryTrees : Nat → Bool → List Char → List Entry × Close × List Char
  | 0, _, _ => ([], .unclosed .cutShort, [])
  | supply + 1, isFirst, s =>
    match skipSpace s with
    | [] => ([], .unclosed .cutShort, [])
    | '\x7d' :: rest => ([], .closed, rest)
    | c :: rest =>
      if isFirst || c = ',' then
        match skipSpace (if isFirst then c :: rest else rest) with
        | [] => ([.broken .cutShort .cutShort], .unclosed .cutShort, [])
        | '"' :: rest =>
          match passText rest with
          | .error d => ([.broken (readingDefect (readText rest) d) d], .unclosed d, [])
          | .ok afterKey =>
            let key := (readText rest).map fun (content, _) => String.ofList content
            match skipSpace afterKey with
            | ':' :: rest =>
              let (value, rest) := valueTree supply rest
              let (entries, close, rest) := entryTrees supply false rest
              (.member key value :: entries, close, rest)
            | rest =>
              let d := if rest = [] then Defect.cutShort else .malformed
              ([.member key (.broken .absent d d)], .unclosed d, [])
        | _ => ([.broken .malformed .malformed], .unclosed .malformed, [])
      else ([], .unclosed .malformed, [])
end

def readTree (s : List Char) : Tree × List Char := valueTree (2 * s.length + 2) s

end GraphqlCrud.Json
