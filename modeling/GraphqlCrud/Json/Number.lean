import GraphqlCrud.Json.Basic
/-!
Numbers. Only their form and their size matter here: a number that is too large for a double is
malformed when it is read for its content. The size is found as a product of two doubles, one for
the digits and one for the power of ten, and both are rounded; so a number just below the limit may
count as too large.
-/
namespace GraphqlCrud.Json

def digitRun (s : List Char) : List Char × List Char := s.span Char.isDigit

def digitValue (c : Char) : Nat := c.toNat - '0'.toNat

def natOfDigits (digits : List Char) : Nat :=
  digits.foldl (fun n c => 10 * n + digitValue c) 0

/-- Appends digits to a number as long as it stays below 2⁶⁴, and gives the digits that are left. -/
def appendDigits (n : Nat) : List Char → Nat × List Char
  | [] => (n, [])
  | c :: rest =>
    let next := 10 * n + digitValue c
    if next < 2 ^ 64 then appendDigits next rest else (n, c :: rest)

/-- The digits of a number as one whole number below 2⁶⁴, and the power of ten that the place of the
point makes of it. Digits that the whole number has no room for count as zeros. -/
def significand (whole fraction : List Char) : Nat × Int :=
  let (n, dropped) := appendDigits 0 whole
  let (n, ignored) := appendDigits n fraction
  (n, (dropped.length : Int) - ((fraction.length : Int) - ignored.length))

/-- The double next to a whole number; of two that are equally near, the one with the even
significand. -/
def nearestDouble (n : Nat) : Nat :=
  let unit := Nat.pow 2 (n.log2 + 1 - 53)
  let steps := n / unit
  let excess := 2 * (n % unit)
  (if unit < excess ∨ (excess = unit ∧ steps % 2 = 1) then steps + 1 else steps) * unit

/-- The least number that does not round to a double: half a step above the largest one. -/
def doubleLimit : Nat := Nat.pow 2 1024 - Nat.pow 2 970

/-- Whether `n · 10 ^ exponent` is too large for a double. Powers past `10 ^ 308` always are. -/
def exceedsDouble (n : Nat) (exponent : Int) : Bool :=
  n != 0 && 0 ≤ exponent &&
    (308 < exponent || doubleLimit ≤ nearestDouble n * nearestDouble (Nat.pow 10 exponent.toNat))

/-- A number that is cut off: the defect found in reading it and in passing over it. -/
structure NumberStump where
  reading : Defect
  passing : Defect

/-- A digit was expected and the text ends or goes on with something else. The end of the text
counts as such only for a reader of content. -/
def NumberStump.before : List Char → NumberStump
  | [] => ⟨.cutShort, .malformed⟩
  | _ => ⟨.malformed, .malformed⟩

def exponentPart (s : List Char) : Except NumberStump (Int × List Char) :=
  let (isNegative, s) := match s with
    | '-' :: rest => (true, rest)
    | '+' :: rest => (false, rest)
    | s => (false, s)
  match digitRun s with
  | ([], rest) => .error (.before rest)
  | (digits, rest) =>
    let n : Int := natOfDigits digits
    .ok (if isNegative then -n else n, rest)

def fractionPart : List Char → Except NumberStump (List Char × List Char)
  | '.' :: s =>
    match digitRun s with
    | ([], rest) => .error (.before rest)
    | (digits, rest) => .ok (digits, rest)
  | s => .ok ([], s)

/-- The digits before the point of a number. A leading zero stands alone. -/
def wholePart : List Char → Except NumberStump (List Char × List Char)
  | '0' :: s =>
    match digitRun s with
    | ([], rest) => .ok (['0'], rest)
    | _ => .error ⟨.malformed, .malformed⟩
  | s =>
    match digitRun s with
    | ([], rest) => .error (.before rest)
    | (digits, rest) => .ok (digits, rest)

/-- Reads an unsigned number: the fault of its content, and what follows it. -/
def number (s : List Char) : Except NumberStump (Option Defect × List Char) := do
  let (whole, s) ← wholePart s
  let (fraction, s) ← fractionPart s
  let (exponent, s) ←
    match s with
    | 'e' :: rest | 'E' :: rest => exponentPart rest
    | s => pure ((0 : Int), s)
  let (n, power) := significand whole fraction
  let fault := if exceedsDouble n (power + exponent) then some Defect.malformed else none
  pure (fault, s)

end GraphqlCrud.Json
