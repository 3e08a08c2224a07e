import GraphqlCrud.Json.Basic
/-!
String literals. A literal that is read for its content must pair its surrogate escapes; one that
is passed over need only have four hexadecimal digits in each.
-/
namespace GraphqlCrud.Json

def hexValue? (c : Char) : Option Nat :=
  if '0' ≤ c ∧ c ≤ '9' then some (c.toNat - '0'.toNat)
  else if 'a' ≤ c ∧ c ≤ 'f' then some (c.toNat - 'a'.toNat + 10)
  else if 'A' ≤ c ∧ c ≤ 'F' then some (c.toNat - 'A'.toNat + 10)
  else none

def hexQuad? (a b c d : Char) : Option Nat := do
  let a ← hexValue? a
  let b ← hexValue? b
  let c ← hexValue? c
  let d ← hexValue? d
  pure (4096 * a + 256 * b + 16 * c + d)

def isHighSurrogate (n : Nat) : Bool := 0xD800 ≤ n && n ≤ 0xDBFF

def isLowSurrogate (n : Nat) : Bool := 0xDC00 ≤ n && n ≤ 0xDFFF

def surrogatePair (high low : Nat) : Char :=
  Char.ofNat (0x10000 + (high - 0xD800) * 0x400 + (low - 0xDC00))

def shortEscape? : Char → Option Char
  | '"' => some '"'
  | '\\' => some '\\'
  | '/' => some '/'
  | 'b' => some '\x08'
  | 'f' => some '\x0c'
  | 'n' => some '\n'
  | 'r' => some '\r'
  | 't' => some '\t'
  | _ => none

/-- What is wrong with an escape that lacks its four digits: the text ends when fewer than four
bytes are left of it. -/
def quadDefect (rest : List Char) : Defect :=
  if (String.ofList (rest.take 4)).utf8ByteSize < 4 then .cutShort else .malformed

def pairDefect : List Char → Defect
  | [] => .cutShort
  | ['\\'] => .cutShort
  | '\\' :: 'u' :: rest => quadDefect rest
  | _ => .malformed

def escapeDefect : List Char → Defect
  | [] => .cutShort
  | 'u' :: rest => quadDefect rest
  | _ => .malformed

abbrev TextResult := Except Defect (List Char × List Char)

def TextResult.push (c : Char) (r : TextResult) : TextResult :=
  r.map fun (content, rest) => (c :: content, rest)

/-- The content of a literal after its opening quote, and what follows its closing quote. -/
def readText : List Char → TextResult
  | [] => .error .cutShort
  | '"' :: rest => .ok ([], rest)
  | '\\' :: 'u' :: a :: b :: c :: d :: rest =>
    match hexQuad? a b c d with
    | none => .error .malformed
    | some n =>
      if isLowSurrogate n then .error .malformed
      else if isHighSurrogate n then
        match rest with
        | '\\' :: 'u' :: e :: f :: g :: h :: rest' =>
          match hexQuad? e f g h with
          | some m =>
            if isLowSurrogate m then (readText rest').push (surrogatePair n m)
            else .error .malformed
          | none => .error .malformed
        | _ => .error (pairDefect rest)
      else (readText rest).push (Char.ofNat n)
  | '\\' :: c :: rest =>
    match shortEscape? c with
    | some x => (readText rest).push x
    | none => .error (escapeDefect (c :: rest))
  | ['\\'] => .error .cutShort
  | c :: rest => if c.toNat < 0x20 then .error .malformed else (readText rest).push c

theorem readText_quote (rest : List Char) : readText ('"' :: rest) = .ok ([], rest) := by
  rw [readText]

/-- What follows the closing quote of a literal that is passed over. -/
def passText : List Char → Except Defect (List Char)
  | [] => .error .cutShort
  | '"' :: rest => .ok rest
  | '\\' :: 'u' :: a :: b :: c :: d :: rest =>
    match hexQuad? a b c d with
    | none => .error .malformed
    | some _ => passText rest
  | '\\' :: c :: rest =>
    match shortEscape? c with
    | some _ => passText rest
    | none => .error (escapeDefect (c :: rest))
  | ['\\'] => .error .cutShort
  | c :: rest => if c.toNat < 0x20 then .error .malformed else passText rest

theorem passText_quote (rest : List Char) : passText ('"' :: rest) = .ok rest := by
  rw [passText]

end GraphqlCrud.Json
