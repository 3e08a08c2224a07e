import GraphqlCrud.Proofs.Layout.Rendering
import GraphqlCrud.Proofs.Script.Sections
import GraphqlCrud.Proofs.Text.LineBeginnings
/-!
What a generated file declares, and where its text says so.
-/
namespace GraphqlCrud.Script

open Text (HasLineBeginning)

/-- A line of the text begins the declaration of an exported constant. -/
def Declares (text name : String) : Prop :=
  HasLineBeginning text ("export const " ++ name ++ " = ")

/-- The name of an exported constant without a type of its own. -/
def Declaration.constantName? : Declaration → Option String
  | .constant c => if c.isExported && c.type.isNone then some c.name else none
  | _ => none

def SourceFile.constantNames (f : SourceFile) : List String :=
  f.declarations.filterMap Declaration.constantName?

theorem exists_render_codeBetween (head code tail : String) :
    ∃ rest, Layout.render (codeBetween head code tail) = head ++ rest := by
  unfold codeBetween
  split
  all_goals
    simp only [Layout.render_eq_ended, Layout.renderedLines_line, Text.ended_cons,
      String.append_assoc]
    exact ⟨_, rfl⟩

theorem Declaration.blocks_constant (c : Constant) : (Declaration.constant c).blocks = c.blocks :=
  rfl

theorem render_mem_sections {f : SourceFile} {d : Declaration} (h : d ∈ f.declarations) :
    Layout.render d.blocks ∈ f.sections := by
  have member : Layout.render d.blocks ∈ f.declarationTexts :=
    List.mem_map_of_mem (f := fun d : Declaration => Layout.render d.blocks) h
  exact List.mem_append_left _ (List.mem_append_right _ member)

theorem exists_render_constant {c : Constant} (exported : c.isExported = true)
    (untyped : c.type = none) : ∃ rest, Layout.render (Declaration.constant c).blocks =
      "export const " ++ c.name ++ " = " ++ rest := by
  have head : c.head = "export const " ++ c.name ++ " = " := by
    simp [Constant.head, exportMark, exported, untyped]
  rw [Declaration.blocks_constant, Constant.blocks, ← head]
  exact exists_render_codeBetween c.head c.value ";"

/-- A section of the file declares an exported constant of that name, and has the line. -/
def WritesLine (f : SourceFile) (name line : String) : Prop :=
  ∃ text ∈ f.sections, (∃ rest, text = "export const " ++ name ++ " = " ++ rest) ∧
    line ∈ Text.lines text

/-- What begins a line of a section does so in the file. -/
theorem hasLineBeginning_render {f : SourceFile} {text head : String}
    (begins : HasLineBeginning text head) (member : text ∈ f.sections) :
    HasLineBeginning f.render head := by
  rw [SourceFile.render_eq_intercalate]
  exact begins.intercalate member

theorem declares_of_mem_constantNames {f : SourceFile} {name : String}
    (h : name ∈ f.constantNames) : Declares f.render name := by
  obtain ⟨d, hd, hname⟩ := List.mem_filterMap.mp h
  cases d with
  | constant c =>
    simp only [Declaration.constantName?, Option.ite_none_right_eq_some, Bool.and_eq_true,
      Option.isNone_iff_eq_none, Option.some.injEq] at hname
    obtain ⟨⟨exported, untyped⟩, rfl⟩ := hname
    obtain ⟨rest, hrest⟩ := exists_render_constant exported untyped
    have begins : HasLineBeginning (Layout.render (Declaration.constant c).blocks)
        ("export const " ++ c.name ++ " = ") := by
      rw [hrest]
      exact Text.hasLineBeginning_append _ _
    exact hasLineBeginning_render begins (render_mem_sections hd)
  | _ => cases hname

end GraphqlCrud.Script
