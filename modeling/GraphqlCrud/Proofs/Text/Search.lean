import Mathlib.Data.List.TakeDrop
import GraphqlCrud.Text.Basic
/-!
What searching and cutting say about a text, in terms of how the text is put together.
-/
namespace GraphqlCrud.Text

/-! Single characters and runs of them -/

theorem ne_of_apply {p : Char → Bool} {c d : Char} (h : p c = true) (other : p d = false) :
    c ≠ d := by
  rintro rfl
  exact Bool.false_ne_true (other.symm.trans h)

theorem notMem_of_apply {p : Char → Bool} {c : Char} {s : List Char} (h : p c = true)
    (other : s.any p = false) : c ∉ s :=
  fun mem => List.any_eq_false.mp other c mem h

theorem span_append {p : Char → Bool} {s rest : List Char} (h : ∀ c ∈ s, p c = true)
    (stops : ∀ c ∈ rest.head?, p c = false) : (s ++ rest).span p = (s, rest) := by
  have stop : rest.takeWhile p = [] ∧ rest.dropWhile p = rest := by
    cases rest with
    | nil => exact ⟨rfl, rfl⟩
    | cons c rest =>
      have other := stops c rfl
      simp [other]
  rw [List.span_eq_takeWhile_dropWhile, List.takeWhile_append_of_pos h,
    List.dropWhile_append_of_pos h, stop.1, stop.2, List.append_nil]

/-! Searching on lists of characters -/

@[simp] theorem after?_append (p s : List Char) : after? p (p ++ s) = some s := by
  induction p with
  | nil => rfl
  | cons a p ih => simpa [after?] using ih

theorem after?_eq_some {p s rest : List Char} : after? p s = some rest ↔ s = p ++ rest := by
  constructor
  · exact eq_append_of_after?
  · rintro rfl
    exact after?_append p rest

theorem isSome_after? {p s : List Char} : (after? p s).isSome = true ↔ p <+: s := by
  simp only [Option.isSome_iff_exists, after?_eq_some]
  exact ⟨fun ⟨rest, h⟩ => ⟨rest, h.symm⟩, fun ⟨rest, h⟩ => ⟨rest, h.symm⟩⟩

theorem isSome_cut? {p s : List Char} : (cut? p s).isSome = true ↔ p <:+: s := by
  induction s with
  | nil => simp [cut?, isSome_after?]
  | cons c s ih =>
    rw [List.infix_cons_iff, ← ih, ← isSome_after?]
    cases h : after? p (c :: s) <;> simp [cut?, h]

theorem cut?_eq_none {p s : List Char} : cut? p s = none ↔ ¬ p <:+: s := by
  rw [← isSome_cut?, Bool.not_eq_true, Option.isSome_eq_false_iff, Option.isNone_iff_eq_none]

theorem erase_eq_self {p s : List Char} (absent : ¬ p <:+: s) : erase p s = s := by
  rw [erase.eq_def]
  split
  · rfl
  · split
    · rfl
    · next cut => exact absurd (isSome_cut?.mp (by rw [cut]; rfl)) absent

theorem length_erase_le (p s : List Char) : (erase p s).length ≤ s.length := by
  fun_induction erase p s with
  | case1 s => exact Nat.le_refl _
  | case2 s hp h => exact Nat.le_refl _
  | case3 s hp before rest h ih =>
    have := length_of_cut? h
    rw [List.length_append]
    omega

theorem erase_ne_self {p s : List Char} (hp : p ≠ []) (present : p <:+: s) : erase p s ≠ s := by
  rw [erase.eq_def, dif_neg hp]
  split
  · next cut => exact absurd present (cut?_eq_none.mp cut)
  · next before rest cut =>
    intro same
    have whole := length_of_cut? cut
    have shorter := length_erase_le p rest
    have held := congrArg List.length same
    have positive := List.length_pos_iff.mpr hp
    rw [List.length_append] at held
    omega

/-- A fragment cannot reach over the place where a character stands that is not inside it. -/
theorem infix_append_cons_iff {p a b : List Char} {c : Char} (apart : c ∉ p.tail) :
    p <:+: a ++ c :: b ↔ p <:+: a ∨ p <:+: c :: b := by
  rw [List.infix_append_iff_ne_nil]
  constructor
  · rintro (left | right | ⟨first, second, hfirst, hsecond, rfl, -, reach⟩)
    · exact .inl left
    · exact .inr right
    · obtain ⟨x, first, rfl⟩ := List.exists_cons_of_ne_nil hfirst
      obtain ⟨y, second, rfl⟩ := List.exists_cons_of_ne_nil hsecond
      obtain ⟨rfl, -⟩ := List.cons_prefix_cons.mp reach
      simp at apart
  · rintro (left | right)
    · exact .inl left
    · exact .inr (.inl right)

theorem append_cons_inj {c : Char} {before before' after after' : List Char} (h : c ∉ before)
    (h' : c ∉ before') (same : before ++ c :: after = before' ++ c :: after') :
    before = before' ∧ after = after' := by
  rcases List.append_eq_append_iff.mp same with ⟨mid, rfl, hmid⟩ | ⟨mid, rfl, hmid⟩
  · cases mid with
    | nil => exact ⟨(List.append_nil _).symm, (List.cons.inj hmid).2⟩
    | cons d mid =>
      obtain ⟨rfl, -⟩ := List.cons.inj hmid
      simp at h'
  · cases mid with
    | nil => exact ⟨List.append_nil _, (List.cons.inj hmid).2.symm⟩
    | cons d mid =>
      obtain ⟨rfl, -⟩ := List.cons.inj hmid
      simp at h

/-- A fragment that begins a text begins its first part, if the next part begins with a character
that is not inside the fragment. -/
theorem prefix_of_prefix_append_cons {p a b : List Char} {c : Char} (apart : c ∉ p.tail)
    (filled : a ≠ []) (h : p <+: a ++ c :: b) : p <+: a := by
  rcases List.prefix_or_prefix_of_prefix h (List.prefix_append a (c :: b)) with inside | ⟨mid, rfl⟩
  · exact inside
  · cases mid with
    | nil => simp
    | cons d mid =>
      obtain ⟨rfl, -⟩ := List.cons_prefix_cons.mp ((List.prefix_append_right_inj a).mp h)
      obtain ⟨x, a, rfl⟩ := List.exists_cons_of_ne_nil filled
      simp at apart

/-- A fragment whose first character does not come again is found where it first stands. -/
theorem cut?_append {c : Char} {p s : List Char} (apart : c ∉ p) (absent : ¬ c :: p <:+: s)
    (rest : List Char) : cut? (c :: p) (s ++ (c :: p ++ rest)) = some (s, rest) := by
  induction s with
  | nil =>
    have start : after? (c :: p) (c :: (p ++ rest)) = some rest := after?_append (c :: p) rest
    rw [List.nil_append, List.cons_append, cut?, start]
  | cons d s ih =>
    have start : after? (c :: p) (d :: (s ++ (c :: p ++ rest))) = none := by
      rw [← Option.not_isSome_iff_eq_none, isSome_after?]
      intro begins
      have inside : c :: p <+: d :: s :=
        prefix_of_prefix_append_cons apart (List.cons_ne_nil d s) begins
      exact absent inside.isInfix
    rw [List.infix_cons_iff, not_or] at absent
    rw [List.cons_append, cut?, start, ih absent.2]
    rfl

theorem cut?_cons_eq_some {p s before rest : List Char} {c : Char}
    (h : cut? p (c :: s) = some (before, rest)) :
    (before = [] ∧ after? p (c :: s) = some rest) ∨
      ∃ later, before = c :: later ∧ after? p (c :: s) = none ∧ cut? p s = some (later, rest) := by
  rw [cut?] at h
  cases start : after? p (c :: s) with
  | some found =>
    rw [start] at h
    obtain ⟨rfl, rfl⟩ := Prod.mk.inj (Option.some.inj h)
    exact .inl ⟨rfl, rfl⟩
  | none =>
    rw [start] at h
    obtain ⟨⟨later, found⟩, cut, same⟩ := Option.map_eq_some_iff.mp h
    obtain ⟨rfl, rfl⟩ := Prod.mk.inj same
    exact .inr ⟨later, rfl, rfl, cut⟩

/-- What comes before the first place of a fragment is free of it. -/
theorem not_infix_of_cut? {p s before rest : List Char} (hp : p ≠ [])
    (h : cut? p s = some (before, rest)) : ¬ p <:+: before := by
  induction s generalizing before with
  | nil =>
    obtain ⟨c, p, rfl⟩ := List.exists_cons_of_ne_nil hp
    cases h
  | cons c s ih =>
    rcases cut?_cons_eq_some h with ⟨rfl, -⟩ | ⟨later, rfl, start, cut⟩
    · rwa [List.infix_nil]
    · rw [List.infix_cons_iff]
      rintro (begins | inside)
      · have whole : p <+: c :: s := by
          rw [eq_append_of_cut? cut, List.append_assoc, ← List.cons_append]
          exact begins.trans (List.prefix_append _ _)
        rw [← isSome_after?, start] at whole
        cases whole
      · exact ih cut inside

/-- What follows any place of a fragment ends what follows the first. -/
theorem suffix_of_cut? {p s first rest before after : List Char}
    (h : cut? p s = some (first, rest)) (place : s = before ++ p ++ after) : after <:+ rest := by
  induction s generalizing first before with
  | nil =>
    obtain ⟨-, rfl⟩ := List.append_eq_nil_iff.mp place.symm
    exact List.nil_suffix
  | cons c s ih =>
    rcases cut?_cons_eq_some h with ⟨-, start⟩ | ⟨later, -, start, cut⟩
    · have whole := eq_append_of_after? start
      have shorter : after.length ≤ rest.length := by
        have sizes := congrArg List.length (whole.symm.trans place)
        simp only [List.length_append] at sizes
        omega
      have second : after <:+ c :: s := by
        rw [place]
        exact List.suffix_append _ _
      have earliest : rest <:+ c :: s := by
        rw [whole]
        exact List.suffix_append _ _
      exact List.suffix_of_suffix_length_le second earliest shorter
    · cases before with
      | nil =>
        rw [place, List.nil_append, after?_append] at start
        cases start
      | cons d before => exact ih cut (List.cons.inj place).2

theorem exists_of_append_eq_append_cons {c : Char} {lead kept before after : List Char}
    (h : c ∉ lead) (same : lead ++ kept = before ++ c :: after) :
    ∃ inner, kept = inner ++ c :: after := by
  rcases List.append_eq_append_iff.mp same with ⟨inner, -, place⟩ | ⟨inner, place, rest⟩
  · exact ⟨inner, place⟩
  · cases inner with
    | nil => exact ⟨[], rest.symm⟩
    | cons d inner =>
      obtain ⟨rfl, -⟩ := List.cons.inj rest
      simp [place] at h

theorem exists_of_append_eq_cons_append {c : Char} {kept trail before after : List Char}
    (h : c ∉ trail) (same : kept ++ trail = before ++ c :: after) :
    ∃ inner, kept = before ++ c :: inner := by
  rcases List.append_eq_append_iff.mp same with ⟨inner, -, place⟩ | ⟨inner, place, rest⟩
  · simp [place] at h
  · cases inner with
    | nil =>
      rw [List.nil_append] at rest
      rw [← rest] at h
      exact absurd List.mem_cons_self h
    | cons d inner =>
      obtain ⟨rfl, -⟩ := List.cons.inj rest
      exact ⟨inner, place⟩

/-! Searching on texts -/

theorem exists_toList_eq_cons {s : String} (h : s ≠ "") : ∃ c rest, s.toList = c :: rest :=
  List.exists_cons_of_ne_nil fun empty => h (String.toList_injective empty)

theorem dropLeading?_eq_some {p s rest : String} :
    dropLeading? p s = some rest ↔ s = p ++ rest := by
  simp only [dropLeading?, Option.map_eq_some_iff, after?_eq_some]
  constructor
  · rintro ⟨chars, h, rfl⟩
    apply String.toList_injective
    rw [h, String.toList_append, String.toList_ofList]
  · rintro rfl
    exact ⟨rest.toList, String.toList_append, String.ofList_toList⟩

@[simp] theorem dropLeading?_append (p s : String) : dropLeading? p (p ++ s) = some s :=
  dropLeading?_eq_some.mpr rfl

theorem begins_iff {p s : String} : begins p s = true ↔ ∃ rest, s = p ++ rest := by
  have same : begins p s = (dropLeading? p s).isSome := by simp [begins, dropLeading?]
  rw [same, Option.isSome_iff_exists]
  exact exists_congr fun rest => dropLeading?_eq_some

@[simp] theorem begins_append (p s : String) : begins p (p ++ s) = true :=
  begins_iff.mpr ⟨s, rfl⟩

theorem append_append_inj {a a' b b' : String} {c : Char} (h : c ∉ a.toList) (h' : c ∉ a'.toList)
    {mark : String} {rest : List Char} (hmark : mark.toList = c :: rest)
    (same : a ++ (mark ++ b) = a' ++ (mark ++ b')) : a = a' ∧ b = b' := by
  have chars := congrArg String.toList same
  simp only [String.toList_append, hmark, List.cons_append] at chars
  obtain ⟨before, after⟩ := append_cons_inj h h' chars
  exact ⟨String.toList_injective before, String.toList_injective (List.append_cancel_left after)⟩

/-- Of two beginnings of one text the one with fewer bytes begins the other. -/
theorem exists_middle_of_append_eq {a b c d : String} (same : a ++ b = c ++ d)
    (le : a.utf8ByteSize ≤ c.utf8ByteSize) : ∃ middle, c = a ++ middle ∧ b = middle ++ d := by
  have chars := congrArg String.toList same
  rw [String.toList_append, String.toList_append] at chars
  rcases List.append_eq_append_iff.mp chars with ⟨middle, hc, hb⟩ | ⟨middle, ha, hd⟩
  · refine ⟨String.ofList middle, ?_, ?_⟩
    · apply String.toList_injective
      rw [hc, String.toList_append, String.toList_ofList]
    · apply String.toList_injective
      rw [hb, String.toList_append, String.toList_ofList]
  · -- The first beginning is as long as the second, so that nothing lies between them.
    have whole : a = c ++ String.ofList middle := by
      apply String.toList_injective
      rw [ha, String.toList_append, String.toList_ofList]
    have size := congrArg String.utf8ByteSize whole
    rw [String.utf8ByteSize_append] at size
    have none : String.ofList middle = "" := by
      rw [← String.utf8ByteSize_eq_zero_iff]
      omega
    rw [none, String.append_empty] at whole
    subst whole
    have rest : b = d := (String.append_right_inj _).mp same
    exact ⟨"", String.append_empty.symm, by rw [String.empty_append, rest]⟩

theorem occurs_iff {p s : String} : occurs p s = true ↔ p.toList <:+: s.toList := isSome_cut?

theorem occurs_eq_false_iff {p s : String} :
    occurs p s = false ↔ ¬ p.toList <:+: s.toList := by
  rw [← occurs_iff, Bool.not_eq_true]

/-- A fragment that occurs in a name and a suffix occurs in the name, if the suffix is free of it
and begins with a character that is not inside it. -/
theorem occurs_append_eq {p s t : String} {c : Char} {rest : List Char} (ht : t.toList = c :: rest)
    (apart : c ∉ p.toList.tail) (absent : occurs p t = false) :
    occurs p (s ++ t) = occurs p s := by
  rw [occurs_eq_false_iff, ht] at absent
  rw [Bool.eq_iff_iff, occurs_iff, occurs_iff, String.toList_append, ht,
    infix_append_cons_iff apart]
  exact or_iff_left absent

/-- Only a text without the fragment stays as it is. -/
theorem without_eq_self_iff {p s : String} (hp : p ≠ "") :
    without p s = s ↔ occurs p s = false := by
  have nonempty : p.toList ≠ [] := fun h => hp (String.toList_injective h)
  rw [occurs_eq_false_iff, ← String.toList_inj, without, String.toList_ofList]
  constructor
  · intro same present
    exact erase_ne_self nonempty present same
  · exact erase_eq_self

end GraphqlCrud.Text
