import GraphqlCrud.Proofs.Layout.Rendering
import GraphqlCrud.Text.Basic
/-!
What the level of a sheet does to blocks. Wherever they are written, their text is the one that they
have at the margin, moved in as a whole; and the sheet is at the same level after them as before.
-/
namespace GraphqlCrud

namespace Layout

open Text (ended notMem_append)

/-- The text with a margin before each line that holds something. -/
def behind (margin text : String) : String :=
  "\n".intercalate ((Text.parts '\n' text).map fun line => if line = "" then "" else margin ++ line)

theorem behind_ended (margin : String) {ls : List String} (h : ∀ l ∈ ls, '\n' ∉ l.toList) :
    behind margin (ended ls) = ended (ls.map fun l => if l = "" then "" else margin ++ l) := by
  have unbroken : ∀ l ∈ ls ++ [""], '\n' ∉ l.toList := by
    intro l hl
    rcases List.mem_append.mp hl with hl | hl
    · exact h l hl
    · obtain rfl := List.mem_singleton.mp hl
      decide
  have parts : Text.parts '\n' (ended ls) = ls ++ [""] := by
    rw [Text.ended_eq_intercalate, Text.parts, Text.splitOn_intercalate_texts unbroken (by simp)]
    simp
  rw [behind, parts, Text.ended_eq_intercalate, List.map_append, List.map_singleton, if_pos rfl]

/-! The texts in a tree of blocks -/

mutual
def textsIn : Block → List String
  | .line text => [text]
  | .remark text => [text]
  | .group header body footer => header :: (textsInAll body ++ footer.toList)

def textsInAll : List Block → List String
  | [] => []
  | block :: rest => textsIn block ++ textsInAll rest
end

variable {unit text : String}

theorem notMem_margin (h : '\n' ∉ unit.toList) (level : Nat) :
    '\n' ∉ (margin unit level).toList := by
  induction level with
  | zero => simp
  | succ level ih =>
    rw [margin_succ]
    exact notMem_append h ih

theorem notMem_indented (h : '\n' ∉ unit.toList) (level : Nat) (line : '\n' ∉ text.toList) :
    '\n' ∉ (indented unit level text).toList := by
  unfold indented
  split
  · decide
  · exact notMem_append (notMem_margin h level) line

-- By recursion on the tree, for every level at once: the body of a group is at another one.
mutual
theorem unbroken_blockLines (h : '\n' ∉ unit.toList) (level : Nat) : ∀ b : Block,
    (∀ t ∈ textsIn b, '\n' ∉ t.toList) → ∀ l ∈ blockLines unit level b, '\n' ∉ l.toList
  | .line text, texts => by
    rw [blockLines, List.forall_mem_singleton]
    exact notMem_indented h level (texts text (by simp [textsIn]))
  | .remark text, texts => by
    rw [blockLines, List.forall_mem_singleton]
    exact notMem_indented h level
      (notMem_append (notMem_append (by decide) (texts text (by simp [textsIn]))) (by decide))
  | .group header body footer, texts => by
    rw [textsIn, List.forall_mem_cons, List.forall_mem_append] at texts
    obtain ⟨first, inner, last⟩ := texts
    rw [blockLines, List.forall_mem_cons, List.forall_mem_append]
    refine ⟨notMem_indented h level first, unbroken_blocksLines h (level + 1) body inner, ?_⟩
    intro l hl
    obtain ⟨closing, hc, rfl⟩ := Option.map_eq_some_iff.mp (Option.mem_toList.mp hl)
    exact notMem_indented h level (last closing (Option.mem_toList.mpr hc))

theorem unbroken_blocksLines (h : '\n' ∉ unit.toList) (level : Nat) : ∀ bs : List Block,
    (∀ t ∈ textsInAll bs, '\n' ∉ t.toList) → ∀ l ∈ blocksLines unit level bs, '\n' ∉ l.toList
  | [], _ => nofun
  | block :: rest, texts => by
    rw [textsInAll, List.forall_mem_append] at texts
    rw [blocksLines, List.forall_mem_append]
    exact ⟨unbroken_blockLines h level block texts.1, unbroken_blocksLines h level rest texts.2⟩
end

/-- All lines of blocks move in by the same margin. -/
theorem blocksLines_eq_map (unit : String) (level : Nat) (bs : List Block) :
    blocksLines unit level bs = (blocksLines unit 0 bs).map (indented unit level) := by
  induction level with
  | zero => exact (List.map_id'' (indented_zero unit) _).symm
  | succ level ih =>
    rw [blocksLines_succ, ih, List.map_map]
    exact List.map_congr_left fun text _ => (indented_succ unit text level).symm

theorem blocksText_eq_behind (h : '\n' ∉ unit.toList) (level : Nat) {bs : List Block}
    (texts : ∀ t ∈ textsInAll bs, '\n' ∉ t.toList) :
    blocksText unit level bs = behind (margin unit level) (blocksText unit 0 bs) := by
  rw [blocksText_eq_ended, blocksText_eq_ended, blocksLines_eq_map,
    behind_ended _ (unbroken_blocksLines h 0 bs texts)]
  rfl

end Layout

theorem Indent.notMem_text (i : Indent) : '\n' ∉ i.text.toList := by
  cases i with
  | spaces width =>
    rw [Indent.text, String.toList_ofList]
    intro feed
    exact absurd (List.eq_of_mem_replicate feed) (by decide)
  | tab => decide

namespace Sheet

open Layout

/-- Blocks without line breaks in their texts are written behind the margin of the sheet's level, as
they would be written at level zero, where they are the lines of the tree one below the other; and
the level is left as it was. -/
theorem blocks_keepsShape (s : Sheet) {bs : List Block}
    (texts : ∀ t ∈ textsInAll bs, '\n' ∉ t.toList) :
    s.blocks bs = { s with
      text := s.text ++
        behind (margin s.indent.text s.level) (Sheet.blocks { indent := s.indent } bs).text } ∧
      (Sheet.blocks { indent := s.indent } bs).text =
        Text.ended (blocksLines s.indent.text 0 bs) := by
  have atMargin : (Sheet.blocks { indent := s.indent } bs).text =
      blocksText s.indent.text 0 bs := by
    rw [blocks_eq]
    exact String.empty_append
  rw [atMargin]
  refine ⟨?_, blocksText_eq_ended _ _ bs⟩
  rw [blocks_eq, blocksText_eq_behind s.indent.notMem_text s.level texts]

/-- A remark above nested groups, of which one is not closed, with an empty line in between. -/
def nestedGroups : List Block := [
  .remark "Finds one user",
  .group "resolve: (root) => \x7b" [
    .line "check();",
    .line "",
    .group "return find(" [.line "root,"] none]
    (some "\x7d,")]

theorem blocks_keepsShape_nestedGroups :
    (∀ t ∈ textsInAll nestedGroups, '\n' ∉ t.toList) ∧
      Sheet.blocks { indent := .tab, level := 2, text := "a\n" } nestedGroups =
        { indent := .tab, level := 2,
          text := "a\n" ++ behind "\t\t" (Sheet.blocks { indent := .tab } nestedGroups).text } ∧
      (Sheet.blocks { indent := .tab } nestedGroups).text =
        Text.ended (blocksLines "\t" 0 nestedGroups) := by
  have texts : ∀ t ∈ textsInAll nestedGroups, '\n' ∉ t.toList := by decide
  exact ⟨texts, blocks_keepsShape { indent := .tab, level := 2, text := "a\n" } texts⟩

/-- The margin goes before a text as a whole, and not before the lines in it. -/
example : (Sheet.blocks { level := 1 } [.line "a\nb"]).text = "  a\nb\n" := by decide +kernel

end Sheet
end GraphqlCrud
