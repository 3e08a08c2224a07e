import GraphqlCrud.Toml.Reader
/-!
How TOML is written. The texts of strings, numbers, dates, keys, values and statements are told by
rules of their own, with no account of how a text is read.
-/
namespace GraphqlCrud.Toml

/-! White space and comments -/

def IsBlanks (s : List Char) : Prop := ∀ c ∈ s, c = ' ' ∨ c = '\t'

inductive LineBreak : List Char → Prop where
  | feed : LineBreak ['\n']
  | returned : LineBreak ['\r', '\n']

/-- A comment, without the break that ends its line. -/
inductive Comment : List Char → Prop where
  | mk {s : List Char} (plain : ∀ c ∈ s, isPlain c = true) : Comment ('#' :: s)

/-- What may stand between the parts of an array, and between statements. -/
inductive Filler : List Char → Prop where
  | none : Filler []
  | blank {c : Char} {s : List Char} (h : c = ' ' ∨ c = '\t') (rest : Filler s) : Filler (c :: s)
  | line {b s : List Char} (h : LineBreak b) (rest : Filler s) : Filler (b ++ s)
  | comment {c b s : List Char} (h : Comment c) (ends : LineBreak b) (rest : Filler s) :
    Filler (c ++ (b ++ s))

/-- What may stand behind a statement on its line. -/
inductive Remainder : List Char → Prop where
  | blanks {a : List Char} (h : IsBlanks a) : Remainder a
  | comment {a c : List Char} (h : IsBlanks a) (comment : Comment c) : Remainder (a ++ c)

/-! Strings -/

/-- A character as it is written between double quotes. -/
inductive Glyph : List Char → Char → Prop where
  | plain {c : Char} (h : isPlain c = true) (quote : c ≠ '"') (backslash : c ≠ '\\') : Glyph [c] c
  | short {c x : Char} (h : shortEscape? c = some x) : Glyph ['\\', c] x
  | pair {a b x : Char} (h : charOfHex? [a, b] = some x) : Glyph ['\\', 'x', a, b] x
  | four {a b c d x : Char} (h : charOfHex? [a, b, c, d] = some x) :
    Glyph ['\\', 'u', a, b, c, d] x
  | eight {a b c d e f g h x : Char} (value : charOfHex? [a, b, c, d, e, f, g, h] = some x) :
    Glyph ['\\', 'U', a, b, c, d, e, f, g, h] x

/-- A text between double quotes, and what it says. -/
inductive BasicText : List Char → List Char → Prop where
  | none : BasicText [] []
  | glyph {g s t : List Char} {x : Char} (h : Glyph g x) (rest : BasicText s t) :
    BasicText (g ++ s) (x :: t)

/-- A text between single quotes says what it is. -/
def IsLiteral (s : List Char) : Prop := ∀ c ∈ s, isPlain c = true ∧ c ≠ '\''

/-- Quotes that do not close a string of several lines. -/
def IsQuotes (quote : Char) (s : List Char) : Prop := s = [quote] ∨ s = [quote, quote]

def StartsOther (quote : Char) (s : List Char) : Prop := ∃ c rest, s = c :: rest ∧ c ≠ quote

/-- A text between triple double quotes, and what it says. Behind a backslash at the end of a line
white space says nothing. -/
inductive BasicLines : LineMode → List Char → List Char → Prop where
  | none {mode : LineMode} : BasicLines mode [] []
  | glyph {mode : LineMode} {g s t : List Char} {x : Char} (h : Glyph g x)
    (kept : mode = .joining → g ≠ [' '] ∧ g ≠ ['\t']) (rest : BasicLines .text s t) :
    BasicLines mode (g ++ s) (x :: t)
  | line {b s t : List Char} (h : LineBreak b) (rest : BasicLines .text s t) :
    BasicLines .text (b ++ s) (b ++ t)
  | quotes {mode : LineMode} {q s t : List Char} (h : IsQuotes '"' q) (other : StartsOther '"' s)
    (rest : BasicLines .text s t) : BasicLines mode (q ++ s) (q ++ t)
  | join {mode : LineMode} {a b s t : List Char} (h : IsBlanks a) (ends : LineBreak b)
    (rest : BasicLines .joining s t) : BasicLines mode ('\\' :: (a ++ (b ++ s))) t
  | passedBlank {c : Char} {s t : List Char} (h : c = ' ' ∨ c = '\t')
    (rest : BasicLines .joining s t) : BasicLines .joining (c :: s) t
  | passedLine {b s t : List Char} (h : LineBreak b) (rest : BasicLines .joining s t) :
    BasicLines .joining (b ++ s) t

/-- A text between triple single quotes says what it is. -/
inductive LiteralLines : List Char → Prop where
  | none : LiteralLines []
  | char {c : Char} {s : List Char} (h : isPlain c = true) (other : c ≠ '\'')
    (rest : LiteralLines s) : LiteralLines (c :: s)
  | line {b s : List Char} (h : LineBreak b) (rest : LiteralLines s) : LiteralLines (b ++ s)
  | quotes {q s : List Char} (h : IsQuotes '\'' q) (other : StartsOther '\'' s)
    (rest : LiteralLines s) : LiteralLines (q ++ s)

/-- Whether a break stands directly behind the opening quotes; only the first one is no content. -/
def IsOpening (b s : List Char) : Prop :=
  LineBreak b ∨ (b = [] ∧ ∀ c rest, LineBreak c → s ≠ c ++ rest)

/-! Numbers -/

/-- Digits with single underscores between them. -/
inductive Digits (isDigit : Char → Bool) : List Char → Prop where
  | one {c : Char} (h : isDigit c = true) : Digits isDigit [c]
  | next {c : Char} {s : List Char} (h : isDigit c = true) (rest : Digits isDigit s) :
    Digits isDigit (c :: s)
  | spaced {c : Char} {s : List Char} (h : isDigit c = true) (rest : Digits isDigit s) :
    Digits isDigit (c :: '_' :: s)

def IsSign (s : List Char) : Prop := s = [] ∨ s = ['+'] ∨ s = ['-']

/-- A whole number. A zero at its beginning stands alone. -/
structure Whole (s : List Char) : Prop where
  digits : Digits Char.isDigit s
  unpadded : s.head? = some '0' → s = ['0']

inductive IntegerText : List Char → Prop where
  | decimal {sign s : List Char} (h : IsSign sign) (whole : Whole s) : IntegerText (sign ++ s)
  | hex {s : List Char} (h : Digits isHexDigit s) : IntegerText ('0' :: 'x' :: s)
  | octal {s : List Char} (h : Digits isOctalDigit s) : IntegerText ('0' :: 'o' :: s)
  | binary {s : List Char} (h : Digits isBinaryDigit s) : IntegerText ('0' :: 'b' :: s)

inductive Fraction : List Char → Prop where
  | mk {s : List Char} (h : Digits Char.isDigit s) : Fraction ('.' :: s)

inductive Exponent : List Char → Prop where
  | mk {mark : Char} {sign s : List Char} (marks : mark = 'e' ∨ mark = 'E') (signs : IsSign sign)
    (h : Digits Char.isDigit s) : Exponent (mark :: (sign ++ s))

inductive FloatText : List Char → Prop where
  | number {sign s f e : List Char} (h : IsSign sign) (whole : Whole s)
    (fraction : f = [] ∨ Fraction f) (exponent : e = [] ∨ Exponent e) (some : f ≠ [] ∨ e ≠ []) :
    FloatText (sign ++ (s ++ (f ++ e)))
  | infinite {sign : List Char} (h : IsSign sign) : FloatText (sign ++ ['i', 'n', 'f'])
  | undefined {sign : List Char} (h : IsSign sign) : FloatText (sign ++ ['n', 'a', 'n'])

/-! Dates and times -/

/-- The number that digits stand for. -/
def numberOf (digits : List Char) : Nat :=
  digits.foldl (fun n c => 10 * n + (c.toNat - '0'.toNat)) 0

/-- So many digits, and the number that they stand for. -/
structure Counts (count : Nat) (s : List Char) (n : Nat) : Prop where
  length : s.length = count
  digits : ∀ c ∈ s, c.isDigit = true
  number : numberOf s = n

inductive DateText : List Char → Prop where
  | mk {y m d : List Char} {year month day : Nat} (hy : Counts 4 y year) (hm : Counts 2 m month)
    (hd : Counts 2 d day) (month_le : 1 ≤ month ∧ month ≤ 12)
    (day_le : 1 ≤ day ∧ day ≤ daysOfMonth year month) : DateText (y ++ '-' :: (m ++ '-' :: d))

/-- The seconds of a time of day, which may be left out. -/
inductive SecondsText : List Char → Prop where
  | none : SecondsText []
  | whole {s : List Char} {second : Nat} (h : Counts 2 s second) (le : second ≤ 60) :
    SecondsText (':' :: s)
  | parts {s f : List Char} {second : Nat} (h : Counts 2 s second) (le : second ≤ 60)
    (digits : ∀ c ∈ f, c.isDigit = true) (some : f ≠ []) : SecondsText (':' :: (s ++ '.' :: f))

inductive TimeText : List Char → Prop where
  | mk {h m s : List Char} {hour minute : Nat} (hh : Counts 2 h hour) (hm : Counts 2 m minute)
    (le : hour < 24 ∧ minute < 60) (seconds : SecondsText s) : TimeText (h ++ ':' :: (m ++ s))

inductive OffsetText : List Char → Prop where
  | zero {c : Char} (h : c = 'Z' ∨ c = 'z') : OffsetText [c]
  | shifted {sign : Char} {h m : List Char} {hour minute : Nat} (signs : sign = '+' ∨ sign = '-')
    (hh : Counts 2 h hour) (hm : Counts 2 m minute) (le : hour < 24 ∧ minute < 60) :
    OffsetText (sign :: (h ++ ':' :: m))

inductive MomentText : List Char → Prop where
  | date {d : List Char} (h : DateText d) : MomentText d
  | time {t : List Char} (h : TimeText t) : MomentText t
  | both {d t o : List Char} {c : Char} (date : DateText d) (between : c = 'T' ∨ c = 't' ∨ c = ' ')
    (time : TimeText t) (offset : o = [] ∨ OffsetText o) : MomentText (d ++ c :: (t ++ o))

/-- What is written without quotes. -/
inductive WordText : List Char → Value → Prop where
  | yes : WordText ['t', 'r', 'u', 'e'] (.flag true)
  | no : WordText ['f', 'a', 'l', 's', 'e'] (.flag false)
  | integer {s : List Char} (h : IntegerText s) : WordText s .integer
  | float {s : List Char} (h : FloatText s) : WordText s .float
  | moment {s : List Char} (h : MomentText s) : WordText s .moment

/-! Keys and values -/

inductive KeyPart : List Char → String → Prop where
  | bare {s : List Char} (h : ∀ c ∈ s, isBareKeyChar c = true) (some : s ≠ []) :
    KeyPart s (String.ofList s)
  | basic {s t : List Char} (h : BasicText s t) : KeyPart ('"' :: (s ++ ['"'])) (String.ofList t)
  | literal {s : List Char} (h : IsLiteral s) : KeyPart ('\'' :: (s ++ ['\''])) (String.ofList s)

/-- A key with dots between its parts. -/
inductive Key : List Char → List String → Prop where
  | single {s : List Char} {k : String} (h : KeyPart s k) : Key s [k]
  | dotted {s a b r : List Char} {k : String} {path : List String} (h : KeyPart s k)
    (before : IsBlanks a) (behind : IsBlanks b) (rest : Key r path) :
    Key (s ++ (a ++ '.' :: (b ++ r))) (k :: path)

mutual
inductive ValueText : List Char → Value → Prop where
  | basic {s t : List Char} (h : BasicText s t) :
    ValueText ('"' :: (s ++ ['"'])) (.text (String.ofList t))
  | literal {s : List Char} (h : IsLiteral s) :
    ValueText ('\'' :: (s ++ ['\''])) (.text (String.ofList s))
  | basicLines {b s t q : List Char} (opening : IsOpening b s) (h : BasicLines .text s t)
    (last : q = [] ∨ IsQuotes '"' q) :
    ValueText ('"' :: '"' :: '"' :: (b ++ (s ++ (q ++ ['"', '"', '"']))))
      (.text (String.ofList (t ++ q)))
  | literalLines {b s q : List Char} (opening : IsOpening b s) (h : LiteralLines s)
    (last : q = [] ∨ IsQuotes '\'' q) :
    ValueText ('\'' :: '\'' :: '\'' :: (b ++ (s ++ (q ++ ['\'', '\'', '\'']))))
      (.text (String.ofList (s ++ q)))
  | word {s : List Char} {v : Value} (h : WordText s v) : ValueText s v
  | array {s : List Char} {items : List Value} (h : ItemsText s items) :
    ValueText ('[' :: s) (.array items false)
  | table {s : List Char} {pairs : List (List String × Value)} {v : Value} (h : PairsText s pairs)
    (joined : bracedTable? pairs = some v) : ValueText ('\x7b' :: s) v

/-- The items of an array and its closing bracket. -/
inductive ItemsText : List Char → List Value → Prop where
  | close {f : List Char} (before : Filler f) : ItemsText (f ++ [']']) []
  | last {f s g : List Char} {v : Value} (before : Filler f) (h : ValueText s v)
    (behind : Filler g) : ItemsText (f ++ (s ++ (g ++ [']']))) [v]
  | next {f s g r : List Char} {v : Value} {items : List Value} (before : Filler f)
    (h : ValueText s v) (behind : Filler g) (rest : ItemsText r items) :
    ItemsText (f ++ (s ++ (g ++ ',' :: r))) (v :: items)

/-- The keys and values of a table in braces and its closing brace. -/
inductive PairsText : List Char → List (List String × Value) → Prop where
  | close {f : List Char} (before : Filler f) : PairsText (f ++ ['\x7d']) []
  | last {f k a b s g : List Char} {path : List String} {v : Value} (before : Filler f)
    (key : Key k path) (ha : IsBlanks a) (hb : IsBlanks b) (h : ValueText s v)
    (behind : Filler g) :
    PairsText (f ++ (k ++ (a ++ '=' :: (b ++ (s ++ (g ++ ['\x7d'])))))) [(path, v)]
  | next {f k a b s g r : List Char} {path : List String} {v : Value}
    {pairs : List (List String × Value)} (before : Filler f) (key : Key k path) (ha : IsBlanks a)
    (hb : IsBlanks b) (h : ValueText s v) (behind : Filler g) (rest : PairsText r pairs) :
    PairsText (f ++ (k ++ (a ++ '=' :: (b ++ (s ++ (g ++ ',' :: r)))))) ((path, v) :: pairs)
end

/-! Documents -/

inductive StatementText : List Char → Statement → Prop where
  | header {a k b : List Char} {path : List String} (ha : IsBlanks a) (key : Key k path)
    (hb : IsBlanks b) : StatementText ('[' :: (a ++ (k ++ (b ++ [']'])))) (.header path)
  | arrayHeader {a k b : List Char} {path : List String} (ha : IsBlanks a) (key : Key k path)
    (hb : IsBlanks b) :
    StatementText ('[' :: '[' :: (a ++ (k ++ (b ++ [']', ']'])))) (.arrayHeader path)
  | pair {k a b s : List Char} {path : List String} {v : Value} (key : Key k path)
    (ha : IsBlanks a) (hb : IsBlanks b) (h : ValueText s v) :
    StatementText (k ++ (a ++ '=' :: (b ++ s))) (.pair path v)

/-- Statements on lines of their own, with white space and comments around them. -/
inductive DocumentText : List Char → List Statement → Prop where
  | none {f r : List Char} (before : Filler f) (behind : Remainder r) : DocumentText (f ++ r) []
  | last {f s r : List Char} {statement : Statement} (before : Filler f)
    (h : StatementText s statement) (behind : Remainder r) :
    DocumentText (f ++ (s ++ r)) [statement]
  | next {f s r b more : List Char} {statement : Statement} {statements : List Statement}
    (before : Filler f) (h : StatementText s statement) (behind : Remainder r) (ends : LineBreak b)
    (rest : DocumentText more statements) :
    DocumentText (f ++ (s ++ (r ++ (b ++ more)))) (statement :: statements)

/-- The source writes the statements, perhaps behind a byte order mark. -/
def Spells (source : String) (statements : List Statement) : Prop :=
  ∃ s, DocumentText s statements ∧ (source.toList = s ∨ source.toList = '\ufeff' :: s)

end GraphqlCrud.Toml
