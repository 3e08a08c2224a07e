/-!
Searching, cutting and splitting text. Everything is stated on lists of characters, so that a law
about a text is a law about a list; the functions on `String` only wrap them.
-/
namespace GraphqlCrud.Text

/-- What follows `p` in `s`, when `s` begins with `p`. -/
def after? : List Char → List Char → Option (List Char)
  | [], s => some s
  | _ :: _, [] => none
  | a :: p, b :: s => if a = b then after? p s else none

/-- Cuts `s` at the first place where `p` stands: what comes before it and what comes after it. -/
def cut? (p : List Char) : List Char → Option (List Char × List Char)
  | [] => (after? p []).map ([], ·)
  | c :: s =>
    match after? p (c :: s) with
    | some rest => some ([], rest)
    | none => (cut? p s).map fun (before, rest) => (c :: before, rest)

theorem eq_append_of_after? {p s rest : List Char} (h : after? p s = some rest) :
    s = p ++ rest := by
  induction p generalizing s with
  | nil => simpa [after?] using h
  | cons a p ih =>
    cases s with
    | nil => simp [after?] at h
    | cons b s =>
      simp only [after?] at h
      split at h
      · next e => subst e; simp [ih h]
      · simp at h

theorem eq_append_of_cut? {p s before rest : List Char} (h : cut? p s = some (before, rest)) :
    s = before ++ p ++ rest := by
  induction s generalizing before with
  | nil =>
    cases p with
    | nil => simp [cut?, after?] at h; simp [h]
    | cons a p => simp [cut?, after?] at h
  | cons c s ih =>
    simp only [cut?] at h
    split at h
    · next r hr =>
      simp only [Option.some.injEq, Prod.mk.injEq] at h
      obtain ⟨rfl, rfl⟩ := h
      simpa using eq_append_of_after? hr
    · simp only [Option.map_eq_some_iff, Prod.mk.injEq, Prod.exists] at h
      obtain ⟨b, r, hb, rfl, rfl⟩ := h
      simp [ih hb]

theorem length_of_cut? {p s before rest : List Char} (h : cut? p s = some (before, rest)) :
    s.length = before.length + p.length + rest.length := by
  simp [eq_append_of_cut? h, Nat.add_assoc]

/-- Removes every occurrence of `p`, found from left to right and never overlapping. What the
removal brings together is not searched again. -/
def erase (p s : List Char) : List Char :=
  if _ : p = [] then s else
    match _ : cut? p s with
    | none => s
    | some (before, rest) => before ++ erase p rest
termination_by s.length
decreasing_by
  have hp : 0 < p.length := List.length_pos_iff.2 ‹_›
  have := length_of_cut? ‹_›
  omega

def occurs (p s : String) : Bool := (cut? p.toList s.toList).isSome

def begins (p s : String) : Bool := (after? p.toList s.toList).isSome

def dropLeading? (p s : String) : Option String :=
  (after? p.toList s.toList).map String.ofList

def without (p s : String) : String := String.ofList (erase p.toList s.toList)

def parts (sep : Char) (s : String) : List String :=
  (s.toList.splitOn sep).map String.ofList

def byteIndex? (p s : String) : Option Nat :=
  (cut? p.toList s.toList).map fun (before, _) => (String.ofList before).utf8ByteSize

def dropFinalLineFeeds (s : String) : String :=
  String.ofList (s.toList.reverse.dropWhile (· == '\n')).reverse

end GraphqlCrud.Text
