import GraphqlCrud.Text.Lines
/-!
Texts put together from lines, and the lines read back from them.
-/
namespace GraphqlCrud.Text

theorem append_ne_empty {s : String} (h : s ≠ "") (rest : String) : s ++ rest ≠ "" :=
  fun empty => h (String.append_eq_empty_iff.mp empty).1

def ended (lines : List String) : String := String.join (lines.map (· ++ "\n"))

@[simp] theorem ended_nil : ended [] = "" := rfl

@[simp] theorem ended_cons (line : String) (lines : List String) :
    ended (line :: lines) = line ++ "\n" ++ ended lines := by
  simp [ended]

@[simp] theorem ended_append (first second : List String) :
    ended (first ++ second) = ended first ++ ended second := by
  simp [ended]

theorem notMem_append {s t : String} {c : Char} (hs : c ∉ s.toList) (ht : c ∉ t.toList) :
    c ∉ (s ++ t).toList := by
  rw [String.toList_append, List.mem_append, not_or]
  exact ⟨hs, ht⟩

theorem intercalate_concat (sep : String) (texts : List String) (last : String) :
    sep.intercalate (texts ++ [last]) = String.join (texts.map (· ++ sep)) ++ last := by
  induction texts with
  | nil => simp
  | cons text texts ih =>
    rw [List.cons_append, String.intercalate_cons_of_ne_nil (by simp), ih, List.map_cons,
      String.join_cons]
    simp only [String.append_assoc]

/-- Lines that are ended are the lines before a last one that is empty. -/
theorem ended_eq_intercalate (lines : List String) :
    ended lines = "\n".intercalate (lines ++ [""]) := by
  rw [intercalate_concat, String.append_empty, ended]

/-- The text holds no character that can end a line. -/
def IsLine (s : String) : Prop := ∀ c ∈ s.toList, c ≠ '\n' ∧ c ≠ '\r'

instance (s : String) : Decidable (IsLine s) := List.decidableBAll _ s.toList

theorem IsLine.append {s t : String} (hs : IsLine s) (ht : IsLine t) : IsLine (s ++ t) := by
  intro c hc
  rw [String.toList_append, List.mem_append] at hc
  exact hc.elim (hs c) (ht c)

theorem IsLine.unbroken {s : String} (h : IsLine s) : '\n' ∉ s.toList :=
  fun member => (h _ member).1 rfl

theorem IsLine.returnless {s : String} (h : IsLine s) : '\r' ∉ s.toList :=
  fun member => (h _ member).2 rfl

theorem IsLine.dropCarriageReturn {s : String} (h : IsLine s) :
    dropCarriageReturn s.toList = s.toList := by
  apply if_neg
  intro last
  exact h.returnless (List.mem_of_getLast? last)

theorem linesOfParts_append_singleton (init : List (List Char)) (last : List Char) :
    linesOfParts (init ++ [last]) =
      init.map dropCarriageReturn ++ if last.isEmpty then [] else [last] := by
  induction init with
  | nil => simp [linesOfParts]
  | cons part init ih =>
    have tail : init ++ [last] ≠ [] := by simp
    obtain ⟨next, rest, hrest⟩ := List.exists_cons_of_ne_nil tail
    rw [List.cons_append, hrest, linesOfParts, ← hrest, ih]
    · rfl
    · intro impossible
      cases impossible

theorem splitOn_intercalate_texts {parts : List String} (h : ∀ p ∈ parts, '\n' ∉ p.toList)
    (nonempty : parts ≠ []) :
    ("\n".intercalate parts).toList.splitOn '\n' = parts.map String.toList := by
  rw [String.toList_intercalate]
  exact List.splitOn_intercalate '\n' (by simpa using h) (by simpa using nonempty)

/-- The lines of a text are what stands between its line feeds, without the carriage returns before
them; a last one must hold something. -/
theorem lines_intercalate_unbroken {init : List String} {last : String}
    (hinit : ∀ l ∈ init, '\n' ∉ l.toList) (hlast : '\n' ∉ last.toList) :
    lines ("\n".intercalate (init ++ [last])) =
      init.map (fun l => String.ofList (dropCarriageReturn l.toList)) ++
        if last = "" then [] else [last] := by
  have unbroken : ∀ p ∈ init ++ [last], '\n' ∉ p.toList := by
    intro p hp
    rcases List.mem_append.mp hp with hp | hp
    · exact hinit p hp
    · obtain rfl := List.mem_singleton.mp hp
      exact hlast
  rw [lines, splitOn_intercalate_texts unbroken (by simp), List.map_append, List.map_singleton,
    linesOfParts_append_singleton, List.map_append, List.map_map, List.map_map]
  by_cases h : last = "" <;> simp [h, Function.comp_def]

theorem lines_intercalate {init : List String} {last : String} (hinit : ∀ l ∈ init, IsLine l)
    (hlast : '\n' ∉ last.toList) :
    lines ("\n".intercalate (init ++ [last])) = init ++ if last = "" then [] else [last] := by
  have kept : init.map (fun l => String.ofList (dropCarriageReturn l.toList)) = init := by
    conv => rhs; rw [← List.map_id init]
    apply List.map_congr_left
    intro l hl
    simp [(hinit l hl).dropCarriageReturn]
  rw [lines_intercalate_unbroken (fun l hl => (hinit l hl).unbroken) hlast, kept]

theorem lines_ended {ls : List String} (h : ∀ l ∈ ls, IsLine l) : lines (ended ls) = ls := by
  rw [ended_eq_intercalate, lines_intercalate h (by simp)]
  simp

theorem mem_intercalate {sep part : String} {parts : List String} {c : Char} (member : part ∈ parts)
    (inside : c ∈ part.toList) : c ∈ (sep.intercalate parts).toList := by
  induction parts with
  | nil => cases member
  | cons first rest ih =>
    by_cases empty : rest = []
    · rw [empty, List.mem_singleton] at member
      rwa [empty, String.intercalate_singleton, ← member]
    · rw [String.intercalate_cons_of_ne_nil empty, String.toList_append, List.mem_append]
      rcases List.mem_cons.mp member with rfl | later
      · exact .inl (String.toList_append ▸ List.mem_append_left _ inside)
      · exact .inr (ih later)

/-- A text is what stands between its line feeds, below each other. -/
theorem exists_unbroken (s : String) : ∃ ls last, (∀ l ∈ ls, '\n' ∉ l.toList) ∧
    '\n' ∉ last.toList ∧ s = "\n".intercalate (ls ++ [last]) := by
  suffices read : ∀ chars : List Char, ∃ ls last, (∀ l ∈ ls, '\n' ∉ l.toList) ∧
      '\n' ∉ last.toList ∧ String.ofList chars = "\n".intercalate (ls ++ [last]) by
    simpa only [String.ofList_toList] using read s.toList
  intro chars
  induction chars with
  | nil => exact ⟨[], "", by simp, by decide, rfl⟩
  | cons c chars ih =>
    obtain ⟨ls, last, hls, hlast, whole⟩ := ih
    have split : String.ofList (c :: chars) = String.ofList [c] ++ String.ofList chars := by
      rw [← String.ofList_append, List.singleton_append]
    by_cases feed : c = '\n'
    · refine ⟨"" :: ls, last, List.forall_mem_cons.mpr ⟨by decide, hls⟩, hlast, ?_⟩
      have shown : String.ofList ['\n'] = "\n" := rfl
      rw [split, feed, shown, whole, List.cons_append, String.intercalate_cons_of_ne_nil (by simp),
        String.empty_append]
    · have visible : '\n' ∉ (String.ofList [c]).toList := by
        rw [String.toList_ofList, List.mem_singleton]
        exact Ne.symm feed
      cases ls with
      | nil =>
        refine ⟨[], String.ofList [c] ++ last, by simp, notMem_append visible hlast, ?_⟩
        rw [split, whole]
        simp
      | cons l ls =>
        obtain ⟨hl, rest⟩ := List.forall_mem_cons.mp hls
        refine ⟨(String.ofList [c] ++ l) :: ls, last,
          List.forall_mem_cons.mpr ⟨notMem_append visible hl, rest⟩, hlast, ?_⟩
        rw [split, whole, List.cons_append, List.cons_append, String.intercalate_cons_append]

/-- A text is its last line, or a line that is ended and what comes behind it. -/
@[elab_as_elim]
theorem line_induction {motive : String → Prop}
    (last : ∀ line, '\n' ∉ line.toList → motive line)
    (ended : ∀ line rest, '\n' ∉ line.toList → motive rest → motive (line ++ "\n" ++ rest))
    (s : String) : motive s := by
  obtain ⟨lines, ending, hlines, hending, rfl⟩ := exists_unbroken s
  induction lines with
  | nil => simpa using last ending hending
  | cons line lines ih =>
    obtain ⟨first, others⟩ := List.forall_mem_cons.mp hlines
    rw [List.cons_append, String.intercalate_cons_of_ne_nil (by simp)]
    exact ended line _ first (ih others)

/-- Without carriage returns, a text is its lines below each other. -/
theorem exists_lines {s : String} (h : '\r' ∉ s.toList) : ∃ ls last,
    (∀ l ∈ ls, IsLine l) ∧ IsLine last ∧ s = "\n".intercalate (ls ++ [last]) := by
  obtain ⟨ls, last, hls, hlast, rfl⟩ := exists_unbroken s
  have isLine {l : String} (member : l ∈ ls ++ [last]) (unbroken : '\n' ∉ l.toList) : IsLine l := by
    intro c hc
    refine ⟨fun feed => unbroken (feed ▸ hc), fun ret => h ?_⟩
    exact mem_intercalate member (ret ▸ hc)
  exact ⟨ls, last, fun l hl => isLine (List.mem_append_left _ hl) (hls l hl),
    isLine List.mem_concat_self hlast, rfl⟩

end GraphqlCrud.Text
