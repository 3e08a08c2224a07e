import GraphqlCrud.Toml.Basic
/-!
Values that are written without quotes: words, numbers and dates. A word is taken from the text as
a whole and then recognised by its form. Numbers are not read for what they say, so their form is
looked at no closer than is needed to tell that a number is meant.
-/
namespace GraphqlCrud.Toml

def isDigitRun (isDigit : Char → Bool) : List Char → Bool
  | [] => false
  | [c] => isDigit c
  | c :: '_' :: rest => isDigit c && isDigitRun isDigit rest
  | c :: rest => isDigit c && isDigitRun isDigit rest

def isHexDigit (c : Char) : Bool :=
  c.isDigit || ('a' ≤ c && c ≤ 'f') || ('A' ≤ c && c ≤ 'F')

def isOctalDigit (c : Char) : Bool := '0' ≤ c && c ≤ '7'

def isBinaryDigit (c : Char) : Bool := c == '0' || c == '1'

def unsigned : List Char → List Char
  | '+' :: rest => rest
  | '-' :: rest => rest
  | s => s

/-- Whether every underscore stands between two digits. What stands elsewhere is not looked at.
`followsDigit` tells whether a digit comes before the text. -/
def separates (isDigit : Char → Bool) (followsDigit : Bool) : List Char → Bool
  | [] => true
  | '_' :: rest =>
    followsDigit && (match rest with | c :: _ => isDigit c | [] => false) &&
      separates isDigit false rest
  | c :: rest => separates isDigit (isDigit c) rest

def isFloatMark (c : Char) : Bool := c == '.' || c == 'e' || c == 'E'

/-- A decimal number without a fraction and a sign. It does not begin with a superfluous zero. After
the first underscore only the neighbours of underscores are looked at. -/
def isDecimal (s : List Char) : Bool :=
  s == ['0'] ||
    (!s.isEmpty && s.head? != some '0' &&
      match s.dropWhile Char.isDigit with
      | [] => true
      | '_' :: rest => !rest.any isFloatMark && separates isHexDigit false s
      | _ => false)

/-- A number without a fraction. After a mark for the base there may be no digits at all. -/
def isInteger : List Char → Bool
  | ['0', 'x'] | ['0', 'o'] | ['0', 'b'] => true
  | '0' :: 'x' :: s => isDigitRun isHexDigit s
  | '0' :: 'o' :: s => isDigitRun isOctalDigit s
  | '0' :: 'b' :: s => isDigitRun isBinaryDigit s
  | s => isDecimal (unsigned s)

def dropDigits? (s : List Char) : Option (List Char) :=
  let (digits, rest) := s.span fun c => c.isDigit || c == '_'
  if digits.any Char.isDigit then some rest else none

def dropWhole? (s : List Char) : Option (List Char) :=
  let digits := s.takeWhile fun c => c.isDigit || c == '_'
  if digits.head? = some '0' ∧ 1 < digits.countP Char.isDigit then none else dropDigits? s

def dropFraction? : List Char → Option (List Char)
  | '.' :: s => dropDigits? s
  | s => some s

def dropExponent? : List Char → Option (List Char)
  | 'e' :: s => dropDigits? (unsigned s)
  | 'E' :: s => dropDigits? (unsigned s)
  | s => some s

/-- A fraction, an exponent, or both after a whole number; or infinity or no number at all. -/
def isFloat (s : List Char) : Bool :=
  let s := unsigned s
  s == ['i', 'n', 'f'] || s == ['n', 'a', 'n'] ||
    (s.any isFloatMark && separates Char.isDigit false s &&
      ((dropWhole? s).bind dropFraction?).bind dropExponent? == some [])

def fixedDigits? (count : Nat) (s : List Char) : Option (Nat × List Char) :=
  let digits := s.take count
  if digits.length = count && digits.all Char.isDigit then
    some (digits.foldl (fun n c => 10 * n + (c.toNat - '0'.toNat)) 0, s.drop count)
  else none

def expect? (c : Char) : List Char → Option (List Char)
  | d :: rest => if c = d then some rest else none
  | [] => none

def isLeapYear (year : Nat) : Bool :=
  year % 4 == 0 && (year % 100 != 0 || year % 400 == 0)

def daysOfMonth (year month : Nat) : Nat :=
  if month = 2 then if isLeapYear year then 29 else 28
  else if month = 4 || month = 6 || month = 9 || month = 11 then 30 else 31

def date? (s : List Char) : Option (List Char) := do
  let (year, s) ← fixedDigits? 4 s
  let s ← expect? '-' s
  let (month, s) ← fixedDigits? 2 s
  let s ← expect? '-' s
  let (day, s) ← fixedDigits? 2 s
  if 1 ≤ month ∧ month ≤ 12 ∧ 1 ≤ day ∧ day ≤ daysOfMonth year month then some s else none

def secondFraction? : List Char → Option (List Char)
  | '.' :: s =>
    let (digits, rest) := s.span Char.isDigit
    if digits.isEmpty then none else some rest
  | s => some s

/-- The seconds of a time of day with their fraction. Both may be missing. -/
def seconds? : List Char → Option (List Char)
  | ':' :: s => do
    let (second, s) ← fixedDigits? 2 s
    if second ≤ 60 then secondFraction? s else none
  | s => some s

def time? (s : List Char) : Option (List Char) := do
  let (hour, s) ← fixedDigits? 2 s
  let s ← expect? ':' s
  let (minute, s) ← fixedDigits? 2 s
  if hour < 24 ∧ minute < 60 then seconds? s else none

def isOffset : List Char → Bool
  | ['Z'] => true
  | ['z'] => true
  | sign :: s =>
    (sign == '+' || sign == '-') &&
      match fixedDigits? 2 s with
      | none => false
      | some (hour, s) =>
        match (expect? ':' s).bind (fixedDigits? 2) with
        | some (minute, []) => hour < 24 && minute < 60
        | _ => false
  | [] => false

def isDateTimeSeparator (c : Char) : Bool := c == 'T' || c == 't' || c == ' '

def isMoment (s : List Char) : Bool :=
  match date? s with
  | some [] => true
  | some (c :: rest) =>
    isDateTimeSeparator c &&
      match time? rest with
      | some [] => true
      | some rest => isOffset rest
      | none => false
  | none => time? s == some []

def isWordChar (c : Char) : Bool :=
  !(c == '=' || c == ',' || c == '[' || c == ']' || c == '\x7b' || c == '\x7d' || c == ' ' ||
    c == '\t' || c == '#' || c == '\r' || c == '\n')

/-- The word at the beginning of a text. A date takes in the time that stands one space away. -/
def takeWord (s : List Char) : List Char × List Char :=
  let (word, rest) := s.span isWordChar
  match date? word, rest with
  | some [], ' ' :: c :: more =>
    if c.isDigit then
      let (time, rest) := (c :: more).span isWordChar
      (word ++ ' ' :: time, rest)
    else (word, rest)
  | _, _ => (word, rest)

def valueOfWord? (word : List Char) : Option Value :=
  if word = ['t', 'r', 'u', 'e'] then some (.flag true)
  else if word = ['f', 'a', 'l', 's', 'e'] then some (.flag false)
  else if isInteger word then some .integer
  else if isFloat word then some .float
  else if isMoment word then some .moment
  else none

end GraphqlCrud.Toml
