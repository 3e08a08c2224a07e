import GraphqlCrud.Layout
import GraphqlCrud.Proofs.Text.Lines
/-!
The text of blocks, line by line.
-/
namespace GraphqlCrud.Layout

open Text (ended)

/-- A line of code behind its margin. An empty line has none. -/
def indented (unit : String) (level : Nat) (text : String) : String :=
  if text = "" then "" else margin unit level ++ text

theorem lineText_eq (unit : String) (level : Nat) (text : String) :
    lineText unit level text = indented unit level text ++ "\n" := by
  unfold lineText indented
  split <;> rfl

@[simp] theorem margin_zero (unit : String) : margin unit 0 = "" := rfl

@[simp] theorem indented_zero (unit text : String) : indented unit 0 text = text := by
  unfold indented
  split
  · next h => exact h.symm
  · rfl

mutual
def blockLines (unit : String) (level : Nat) : Block → List String
  | .line text => [indented unit level text]
  | .remark text => [indented unit level ("/** " ++ text ++ " */")]
  | .group header body footer =>
    indented unit level header :: (blocksLines unit (level + 1) body ++
      (footer.map (indented unit level)).toList)

def blocksLines (unit : String) (level : Nat) : List Block → List String
  | [] => []
  | block :: rest => blockLines unit level block ++ blocksLines unit level rest
end

mutual
theorem blockText_eq_ended (unit : String) (level : Nat) :
    ∀ b : Block, blockText unit level b = ended (blockLines unit level b)
  | .line text => by simp [blockText, blockLines, lineText_eq]
  | .remark text => by simp [blockText, blockLines, lineText_eq]
  | .group header body none => by
    simp [blockText, blockLines, lineText_eq, blocksText_eq_ended unit (level + 1) body]
  | .group header body (some footer) => by
    simp [blockText, blockLines, lineText_eq, blocksText_eq_ended unit (level + 1) body,
      String.append_assoc]

theorem blocksText_eq_ended (unit : String) (level : Nat) :
    ∀ bs : List Block, blocksText unit level bs = ended (blocksLines unit level bs)
  | [] => rfl
  | block :: rest => by
    simp [blocksText, blocksLines, blockText_eq_ended unit level block,
      blocksText_eq_ended unit level rest]
end

theorem margin_succ (unit : String) (level : Nat) :
    margin unit (level + 1) = unit ++ margin unit level := by
  simp [margin, List.replicate_succ]

theorem indented_succ (unit text : String) (level : Nat) :
    indented unit (level + 1) text = indented unit 1 (indented unit level text) := by
  by_cases h : text = ""
  · simp [indented, h]
  · have filled : margin unit level ++ text ≠ "" := by
      intro empty
      apply h
      have nothing := congrArg String.toList empty
      rw [String.toList_append] at nothing
      exact String.toList_injective (List.append_eq_nil_iff.mp nothing).2
    simp [indented, h, filled, margin_succ, String.append_assoc]

mutual
theorem blockLines_succ (unit : String) (level : Nat) : ∀ b : Block,
    blockLines unit (level + 1) b = (blockLines unit level b).map (indented unit 1)
  | .line text => by simp [blockLines, ← indented_succ]
  | .remark text => by simp [blockLines, ← indented_succ]
  | .group header body none => by
    simp [blockLines, ← indented_succ, blocksLines_succ unit (level + 1) body]
  | .group header body (some footer) => by
    simp [blockLines, ← indented_succ, blocksLines_succ unit (level + 1) body]

theorem blocksLines_succ (unit : String) (level : Nat) : ∀ bs : List Block,
    blocksLines unit (level + 1) bs = (blocksLines unit level bs).map (indented unit 1)
  | [] => rfl
  | block :: rest => by
    simp [blocksLines, blockLines_succ unit level block, blocksLines_succ unit level rest]
end

/-- The lines of a piece of code that stands on its own. -/
def renderedLines (blocks : List Block) : List String := blocksLines Indent.standard.text 0 blocks

theorem render_eq_ended (blocks : List Block) : render blocks = ended (renderedLines blocks) :=
  blocksText_eq_ended _ 0 blocks

@[simp] theorem renderedLines_nil : renderedLines [] = [] := rfl

@[simp] theorem renderedLines_line (text : String) (rest : List Block) :
    renderedLines (.line text :: rest) = text :: renderedLines rest := by
  simp [renderedLines, blocksLines, blockLines]

abbrev inward (line : String) : String := indented Indent.standard.text 1 line

theorem inward_of_ne_empty {line : String} (h : line ≠ "") : inward line = "  " ++ line := by
  have unit : margin Indent.standard.text 1 = "  " := by decide
  rw [inward, indented, if_neg h, unit]

theorem isLine_inward {line : String} (h : Text.IsLine line) : Text.IsLine (inward line) := by
  by_cases empty : line = ""
  · rw [empty]
    decide
  · rw [inward_of_ne_empty empty]
    exact Text.IsLine.append (by decide) h

theorem inward_inward {line : String} (h : line ≠ "") : inward (inward line) = "    " ++ line := by
  have filled : "  " ++ line ≠ "" := fun empty => h (String.append_eq_empty_iff.mp empty).2
  have both : "  " ++ "  " = "    " := by decide
  rw [inward_of_ne_empty h, inward_of_ne_empty filled, ← String.append_assoc, both]

@[simp] theorem renderedLines_group (header footer : String) (body rest : List Block) :
    renderedLines (.group header body (some footer) :: rest) =
      header :: ((renderedLines body).map inward ++ footer :: renderedLines rest) := by
  simp [renderedLines, blocksLines, blockLines, blocksLines_succ]

@[simp] theorem renderedLines_append (first second : List Block) :
    renderedLines (first ++ second) = renderedLines first ++ renderedLines second := by
  induction first with
  | nil => rfl
  | cons block rest ih =>
    simp only [renderedLines, List.cons_append, blocksLines, List.append_assoc] at ih ⊢
    rw [ih]

theorem renderedLines_lines (texts : List String) : renderedLines (texts.map .line) = texts := by
  induction texts with
  | nil => rfl
  | cons text texts ih => rw [List.map_cons, renderedLines_line, ih]

end GraphqlCrud.Layout
