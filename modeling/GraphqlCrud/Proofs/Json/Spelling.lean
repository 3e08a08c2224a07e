import GraphqlCrud.Json.Reader
/-!
How JSON is written. A value is spelled as a list of tokens, and white space may stand anywhere
around them.
-/
namespace GraphqlCrud.Json

/-! Strings -/

/-- The characters that make an escape together with the backslash before them. -/
def shortEscapes : List Char := ['"', '\\', '/', 'b', 'f', 'n', 'r', 't']

def isHexDigit (c : Char) : Bool :=
  ('0' ≤ c && c ≤ '9') || ('a' ≤ c && c ≤ 'f') || ('A' ≤ c && c ≤ 'F')

/-- What may stand inside of quotes: a character, an escape, or four hexadecimal digits for one. -/
inductive Glyph where
  | plain (c : Char) (h : 0x20 ≤ c.toNat ∧ c ≠ '"' ∧ c ≠ '\\')
  | short (c : Char) (h : c ∈ shortEscapes)
  | quad (a b c d : Char) (h : [a, b, c, d].all isHexDigit = true)

def Glyph.chars : Glyph → List Char
  | plain c _ => [c]
  | short c _ => ['\\', c]
  | quad a b c d _ => ['\\', 'u', a, b, c, d]

/-- The characters that glyphs stand for. There are none when surrogates are not paired. -/
def content? : List Glyph → Option (List Char)
  | [] => some []
  | .plain c _ :: rest => (content? rest).map (c :: ·)
  | .short c _ :: rest => do
    let x ← shortEscape? c
    (content? rest).map (x :: ·)
  | .quad a b c d _ :: rest => do
    let n ← hexQuad? a b c d
    if isLowSurrogate n then none
    else if isHighSurrogate n then
      match rest with
      | .quad e f g h _ :: rest => do
        let m ← hexQuad? e f g h
        if isLowSurrogate m then (content? rest).map (surrogatePair n m :: ·) else none
      | _ => none
    else (content? rest).map (Char.ofNat n :: ·)

def text? (glyphs : List Glyph) : Option String := (content? glyphs).map String.ofList

/-! Numbers -/

/-- A run of one or more digits. -/
structure Digits where
  chars : List Char
  nonempty : chars ≠ []
  areDigits : ∀ c ∈ chars, c.isDigit = true

structure Exponent where
  mark : Char
  sign : List Char
  digits : Digits
  isMark : mark = 'e' ∨ mark = 'E'
  isSign : sign = [] ∨ sign = ['+'] ∨ sign = ['-']

/-- A number. A zero before the point has no digits after it. -/
structure Number where
  isNegative : Bool := false
  whole : Digits
  fraction : Option Digits := none
  exponent : Option Exponent := none
  unpadded : whole.chars.head? = some '0' → whole.chars = ['0']

def Exponent.chars (e : Exponent) : List Char := e.mark :: (e.sign ++ e.digits.chars)

namespace Number

def fractionChars (n : Number) : List Char := (n.fraction.map fun d => '.' :: d.chars).getD []

def exponentChars (n : Number) : List Char := (n.exponent.map Exponent.chars).getD []

/-- The characters after the sign. -/
def body (n : Number) : List Char := n.whole.chars ++ (n.fractionChars ++ n.exponentChars)

def chars (n : Number) : List Char := (if n.isNegative then ['-'] else []) ++ n.body

end Number

/-! Values -/

/-- A value as it is written, but for the white space. -/
inductive Value where
  | null
  | flag (value : Bool)
  | number (value : Number)
  | text (glyphs : List Glyph)
  | array (items : List Value)
  | object (members : List (List Glyph × Value))

/-- A member of an object: how its key is written, and its value. -/
abbrev Member := List Glyph × Value

abbrev Token := List Char

def literal (glyphs : List Glyph) : Token := '"' :: (glyphs.flatMap Glyph.chars ++ ['"'])

/-- The comma before every part but the first. -/
def separator (isFirst : Bool) : List Token := if isFirst then [] else [[',']]

mutual
def Value.tokens : Value → List Token
  | .null => [['n', 'u', 'l', 'l']]
  | .flag true => [['t', 'r', 'u', 'e']]
  | .flag false => [['f', 'a', 'l', 's', 'e']]
  | .number n => [n.chars]
  | .text glyphs => [literal glyphs]
  | .array items => ['['] :: (itemTokens true items ++ [[']']])
  | .object members => ['\x7b'] :: (memberTokens true members ++ [['\x7d']])

def itemTokens : Bool → List Value → List Token
  | _, [] => []
  | isFirst, item :: rest => separator isFirst ++ (item.tokens ++ itemTokens false rest)

def memberTokens : Bool → List (List Glyph × Value) → List Token
  | _, [] => []
  | isFirst, (key, value) :: rest =>
    separator isFirst ++ (literal key :: [':'] :: (value.tokens ++ memberTokens false rest))
end

/-- The text has the tokens in it, with nothing but white space around them. -/
inductive Spaced : List Token → List Char → Prop where
  | none {space : List Char} (h : ∀ c ∈ space, isSpace c = true) : Spaced [] space
  | token {space t s : List Char} {tokens : List Token} (h : ∀ c ∈ space, isSpace c = true)
    (rest : Spaced tokens s) : Spaced (t :: tokens) (space ++ (t ++ s))

/-- The text spells the value. -/
def Value.Spells (v : Value) (s : String) : Prop := Spaced v.tokens s.toList

/-- The value with the same space before every token. -/
def Value.written (v : Value) (gap : List Char) : String :=
  String.ofList (v.tokens.flatMap (gap ++ ·))

theorem Spaced.flatMap {gap : List Char} (h : ∀ c ∈ gap, isSpace c = true) (tokens : List Token) :
    Spaced tokens (tokens.flatMap (gap ++ ·)) := by
  induction tokens with
  | nil => exact .none nofun
  | cons t tokens ih =>
    rw [List.flatMap_cons, List.append_assoc]
    exact .token h ih

/-- Every value can be written, with any white space. -/
theorem Value.spells_written (v : Value) {gap : List Char} (h : ∀ c ∈ gap, isSpace c = true) :
    v.Spells (v.written gap) := by
  rw [Value.Spells, Value.written, String.toList_ofList]
  exact Spaced.flatMap h v.tokens

end GraphqlCrud.Json
