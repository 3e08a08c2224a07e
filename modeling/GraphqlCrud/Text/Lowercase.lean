import GraphqlCrud.Text.Lowercase.Table
/-!
Full Unicode lowercase. Two characters need more than the table: the dotted capital I becomes two
characters, and a capital sigma at the end of a word becomes the final sigma.
-/
namespace GraphqlCrud.Text

def isWithin (ranges : List (Nat × Nat)) (n : Nat) : Bool :=
  ranges.any fun (first, last) => first ≤ n && n ≤ last

def isCased (c : Char) : Bool := isWithin casedRanges c.toNat

/-- Whether the search for the letters around a sigma passes over the character. -/
def isCaseIgnorable (c : Char) : Bool := isWithin caseIgnorableRanges c.toNat

def CaseRange.holds (r : CaseRange) (n : Nat) : Bool :=
  r.first ≤ n && n ≤ r.last && (n - r.first) % r.step == 0

def lowercaseOf (c : Char) : List Char :=
  if c.toNat < 0x80 then [c.toLower]
  else if c.toNat = 0x130 then ['i', '\u0307']
  else
    match lowercaseRanges.find? (·.holds c.toNat) with
    | some r => [Char.ofNat (r.image + (c.toNat - r.first))]
    | none => [c]

def meetsCased (s : List Char) : Bool :=
  match s.dropWhile isCaseIgnorable with
  | [] => false
  | c :: _ => isCased c

/-- Lowercases the rest of a text, given what came before it in reverse. A capital sigma is final
when a cased letter comes before it and none comes after it. -/
def lowercaseAfter (before : List Char) : List Char → List Char
  | [] => []
  | c :: rest =>
    let image :=
      if c = 'Σ' then if meetsCased before && !meetsCased rest then ['ς'] else ['σ']
      else lowercaseOf c
    image ++ lowercaseAfter (c :: before) rest

def lowercase (s : String) : String := String.ofList (lowercaseAfter [] s.toList)

/-- The text with its first character in lowercase. A sigma that stands first is never final. -/
def lowercaseFirst (s : String) : String :=
  match s.toList with
  | [] => ""
  | c :: rest => String.ofList (lowercaseOf c ++ rest)

end GraphqlCrud.Text
