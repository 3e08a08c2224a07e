import GraphqlCrud.Output.InputTypes
import GraphqlCrud.Proofs.Inputs.DeclaredNames
import GraphqlCrud.Proofs.Script.Declarations
/-!
The constants that the file of input types exports: scalars, enums and inputs.
-/
namespace GraphqlCrud.Output.InputTypes

open Script Schema Inputs

def exportName (s : SpecialScalar) : String := (ScalarDeclaration.ofScalar s).exportName

theorem exportName_placeholder : ScalarDeclaration.placeholder.exportName = placeholder := rfl

def needsPlaceholder (document : Document) (config : Config) : Bool :=
  (select document config).any (·.isEmpty)

theorem constantNames_map {α : Type} (constant : α → Constant) (name : α → String)
    (h : ∀ x, Declaration.constantName? (.constant (constant x)) = some (name x)) (xs : List α) :
    (xs.map fun x => Declaration.constant (constant x)).filterMap Declaration.constantName? =
      xs.map name := by
  have each : Declaration.constantName? ∘ (fun x => .constant (constant x)) = some ∘ name :=
    funext h
  rw [List.filterMap_map, each, List.filterMap_eq_map]

theorem names_select (document : Document) (config : Config) :
    (select document config).map (·.name) = (chosen document).map (·.2) := by
  rw [select, List.map_map]
  rfl

/-- Scalars come first, then enums, then inputs under their declared names. -/
theorem constantNames_file (document : Document) (config : Config) :
    (file document config).constantNames =
      (scalars document config (needsPlaceholder document config)).map (·.exportName) ++
        document.enums.map (·.name) ++ (chosen document).map (·.2) := by
  have scalar_names := constantNames_map ScalarDeclaration.constant (·.exportName) fun _ => rfl
  have enum_names := constantNames_map enumConstant (·.name) fun _ => rfl
  have input_names := constantNames_map inputConstant (·.name) fun _ => rfl
  rw [← names_select document config, ← input_names, ← enum_names, ← scalar_names,
    ← List.filterMap_append, ← List.filterMap_append]
  rfl

theorem mem_scalarNames {document : Document} {config : Config} {needs : Bool} {name : String} :
    name ∈ (scalars document config needs).map (·.exportName) ↔
      (∃ s : SpecialScalar, exportName s = name ∧ s.isUsedIn document.inputs = true ∧
        config.inputs.excludesScalar s.name = false) ∨
      (name = placeholder ∧ needs = true ∧ config.inputs.excludesScalar placeholder = false) := by
  have every (s : SpecialScalar) : s ∈ SpecialScalar.all := by cases s <;> decide
  simp only [scalars, List.map_append, List.mem_append]
  apply or_congr
  · simp [SpecialScalar.usedIn, every, exportName, and_assoc, and_comm]
  · cases needs <;> cases config.inputs.excludesScalar placeholder <;>
      simp [exportName_placeholder]

theorem length_le_of_mem_scalarNames {document : Document} {config : Config} {needs : Bool}
    {name : String} (h : name ∈ (scalars document config needs).map (·.exportName)) :
    name.length ≤ 8 := by
  rcases mem_scalarNames.mp h with ⟨s, rfl, -⟩ | ⟨rfl, -⟩
  · cases s <;> decide
  · decide

end GraphqlCrud.Output.InputTypes
