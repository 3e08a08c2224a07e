import GraphqlCrud.Proofs.Text.Endings
/-!
Carriage returns at the ends of lines. To read a text line by line and to put its lines below each
other again takes one carriage return from each end of a line, where there are any.
-/
namespace GraphqlCrud.Text

/-- The characters without the carriage returns that stand directly before line feeds. -/
def dropReturns : List Char → List Char
  | [] => []
  | '\r' :: '\n' :: s => '\n' :: dropReturns s
  | c :: s => c :: dropReturns s

/-- The text without the carriage returns that stand directly before line feeds. -/
def unreturned (s : String) : String := String.ofList (dropReturns s.toList)

theorem dropReturns_pair (s : List Char) :
    dropReturns ('\r' :: '\n' :: s) = '\n' :: dropReturns s := rfl

theorem dropReturns_cons {c : Char} {s : List Char} (h : c = '\r' → s.head? ≠ some '\n') :
    dropReturns (c :: s) = c :: dropReturns s := by
  apply dropReturns.eq_3
  rintro s rfl rfl
  exact h rfl rfl

theorem dropReturns_append {s t : List Char} (h : s.getLast? = some '\r' → t.head? ≠ some '\n') :
    dropReturns (s ++ t) = dropReturns s ++ dropReturns t := by
  induction s using dropReturns.induct with
  | case1 => rfl
  | case2 s ih =>
    rw [List.cons_append, List.cons_append, dropReturns_pair, dropReturns_pair, ih,
      List.cons_append]
    intro last
    exact h (by rw [List.getLast?_cons_cons, List.getLast?_cons, last]; rfl)
  | case3 c s alone ih =>
    have alone' : c = '\r' → s.head? ≠ some '\n' := by
      rintro rfl feed
      obtain ⟨rest, rfl⟩ := List.head?_eq_some_iff.mp feed
      exact alone rest rfl rfl
    rw [List.cons_append, dropReturns_cons alone', List.cons_append]
    cases s with
    | nil =>
      rw [List.nil_append, dropReturns_cons fun ret => h (by rw [ret]; rfl)]
      rfl
    | cons d s =>
      have apart : c = '\r' → (d :: s ++ t).head? ≠ some '\n' := alone'
      rw [dropReturns_cons apart, ih fun last => h (by rwa [List.getLast?_cons_cons])]

theorem head?_of_dropReturns {s : List Char} {c : Char} (h : (dropReturns s).head? = some c)
    (other : c ≠ '\n') : s.head? = some c := by
  unfold dropReturns at h
  split at h
  · cases h
  · exact absurd (Option.some.inj h).symm other
  · exact h

theorem dropReturns_returnless {s : List Char} (h : '\r' ∉ s) : dropReturns s = s := by
  induction s with
  | nil => rfl
  | cons c s ih =>
    obtain ⟨first, others⟩ := not_or.mp (mt List.mem_cons.mpr h)
    rw [dropReturns_cons fun ret => absurd ret.symm first, ih others]

theorem dropReturns_unbroken {s : List Char} (h : '\n' ∉ s) : dropReturns s = s := by
  induction s with
  | nil => rfl
  | cons c s ih =>
    obtain ⟨first, others⟩ := not_or.mp (mt List.mem_cons.mpr h)
    rw [dropReturns_cons fun _ feed => others (List.mem_of_mem_head? feed), ih others]

/-- A line, its end, and what comes below. -/
theorem dropReturns_line {line : List Char} (h : '\n' ∉ line) (s : List Char) :
    dropReturns (line ++ '\n' :: s) = dropCarriageReturn line ++ '\n' :: dropReturns s := by
  unfold dropCarriageReturn
  split
  · next ended =>
    obtain ⟨front, rfl⟩ := List.getLast?_eq_some_iff.mp ended
    have pair : front ++ ['\r'] ++ '\n' :: s = front ++ '\r' :: '\n' :: s := by simp
    have unbroken : '\n' ∉ front := fun member => h (List.mem_append_left _ member)
    rw [pair, dropReturns_append (by simp), dropReturns_unbroken unbroken,
      dropReturns_pair, List.dropLast_concat]
  · next ended =>
    rw [dropReturns_append fun last => absurd last ended, dropReturns_unbroken h,
      dropReturns_cons (by simp)]

section

variable {s t : String}

theorem unreturned_append (h : s.toList.getLast? = some '\r' → t.toList.head? ≠ some '\n') :
    unreturned (s ++ t) = unreturned s ++ unreturned t := by
  rw [unreturned, String.toList_append, dropReturns_append h, String.ofList_append]
  rfl

theorem unreturned_of_returnless (h : '\r' ∉ s.toList) : unreturned s = s := by
  rw [unreturned, dropReturns_returnless h, String.ofList_toList]

theorem unreturned_append_left (h : '\r' ∉ s.toList) (t : String) :
    unreturned (s ++ t) = s ++ unreturned t := by
  rw [unreturned_append fun last => absurd (List.mem_of_getLast? last) h, unreturned_of_returnless h]

theorem IsSolid.unreturned_append (h : IsSolid s) (t : String) :
    unreturned (s ++ t) = unreturned s ++ unreturned t := by
  apply Text.unreturned_append
  obtain ⟨init, c, whole, visible⟩ := h
  rw [whole, List.getLast?_concat]
  rintro last
  obtain rfl := Option.some.inj last
  cases visible

theorem isSolid_unreturned (h : IsSolid s) : IsSolid (unreturned s) := by
  obtain ⟨init, c, whole, visible⟩ := h
  have other : ([c] : List Char).head? ≠ some '\n' := by
    simpa using ne_feed_of_visible visible
  refine ⟨dropReturns init, c, ?_, visible⟩
  rw [unreturned, String.toList_ofList, whole, dropReturns_append fun _ => other,
    dropReturns_cons (by simp)]
  rfl

end

theorem unreturned_intercalate {init : List String} {last : String}
    (hinit : ∀ l ∈ init, '\n' ∉ l.toList) (hlast : '\n' ∉ last.toList) :
    unreturned ("\n".intercalate (init ++ [last])) = "\n".intercalate
      (init.map (fun l => String.ofList (dropCarriageReturn l.toList)) ++ [last]) := by
  have feed : "\n".toList = ['\n'] := rfl
  induction init with
  | nil =>
    apply String.toList_injective
    simp [unreturned, dropReturns_unbroken hlast]
  | cons l init ih =>
    obtain ⟨first, others⟩ := List.forall_mem_cons.mp hinit
    have below := congrArg String.toList (ih others)
    rw [unreturned, String.toList_ofList] at below
    rw [List.cons_append, String.intercalate_cons_of_ne_nil (by simp), List.map_cons,
      List.cons_append, String.intercalate_cons_of_ne_nil (by simp)]
    apply String.toList_injective
    simp only [unreturned, String.toList_ofList, String.toList_append, feed, List.append_assoc,
      List.singleton_append, dropReturns_line first, below]

/-- The lines of a text below each other, where the last of them is one. -/
theorem IsSolid.intercalate_lines {s : String} (h : IsSolid s) :
    "\n".intercalate (lines s) = unreturned s := by
  obtain ⟨init, last, hinit, hlast, rfl⟩ := exists_unbroken s
  rw [lines_intercalate_unbroken hinit hlast, if_neg h.of_intercalate.ne_empty,
    unreturned_intercalate hinit hlast]

/-- Each line with a margin loses its own carriage returns. -/
theorem unreturned_ended {margin : String} (plain : '\r' ∉ margin.toList) {ls : List String}
    (h : ∀ l ∈ ls, IsSolid l) (rest : String) :
    unreturned (ended (ls.map (margin ++ ·)) ++ rest) =
      ended ((ls.map unreturned).map (margin ++ ·)) ++ unreturned rest := by
  induction ls with
  | nil => simp
  | cons l ls ih =>
    obtain ⟨first, others⟩ := List.forall_mem_cons.mp h
    have line : IsSolid (margin ++ l) := first.append margin
    rw [List.map_cons, ended_cons, String.append_assoc, String.append_assoc, line.unreturned_append,
      unreturned_append_left plain, unreturned_append_left (by decide), ih others, List.map_cons,
      List.map_cons, ended_cons]
    simp only [String.append_assoc]

theorem notMem_dropCarriageReturn {c : Char} {line : List Char} (h : c ∉ line) :
    c ∉ dropCarriageReturn line := by
  unfold dropCarriageReturn
  split
  · exact fun member => h (List.dropLast_subset line member)
  · exact h

theorem unbroken_of_mem_lines (s : String) : ∀ l ∈ lines s, '\n' ∉ l.toList := by
  obtain ⟨init, last, hinit, hlast, rfl⟩ := exists_unbroken s
  rw [lines_intercalate_unbroken hinit hlast]
  intro l hl
  rcases List.mem_append.mp hl with hl | hl
  · obtain ⟨line, hline, rfl⟩ := List.mem_map.mp hl
    rw [String.toList_ofList]
    exact notMem_dropCarriageReturn (hinit line hline)
  · split at hl
    · cases hl
    · obtain rfl := List.mem_singleton.mp hl
      exact hlast

end GraphqlCrud.Text
