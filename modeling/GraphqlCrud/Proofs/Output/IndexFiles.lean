import GraphqlCrud.Output.ModelIndex
import GraphqlCrud.Proofs.Output.Descriptors
/-!
The texts of the index files of a model.
-/
namespace GraphqlCrud.Output.ModelIndex

open Script Text Layout Registration

theorem renderedLines_exports (exports : List Export) :
    renderedLines (exports.flatMap Export.blocks) = exports.filterMap Export.statement? := by
  induction exports with
  | nil => rfl
  | cons e rest ih =>
    rw [List.flatMap_cons, renderedLines_append, ih]
    cases statement : e.statement? with
    | none => simp [Export.blocks, statement]
    | some line => simp [Export.blocks, statement]

theorem render_exports {exports : List Export} (filled : exports ≠ []) :
    SourceFile.render { exports } = ended (exports.filterMap Export.statement?) := by
  have some_export : exports.isEmpty = false := by simpa using filled
  have sections : SourceFile.sections { exports } =
      [ended (exports.filterMap Export.statement?)] := by
    rw [← renderedLines_exports, ← render_eq_ended]
    simp [SourceFile.sections, SourceFile.declarationTexts, SourceFile.exportsText, some_export]
  rw [SourceFile.render_eq_intercalate, sections, String.intercalate_singleton]

/-- The line that exports the field of a resolver and the object that defines it. -/
def reexportLine (model : String) (t : RootType) (o : Operation) : String :=
  "export \x7b " ++ fieldSymbol model t o ++ ", " ++ fieldSymbol model t o ++
    "Object \x7d from './" ++ o.name ++ ".base';"

theorem reexportLine_eq (model : String) (t : RootType) (o : Operation) :
    reexportLine model t o =
      "export " ++ bracedNames [fieldSymbol model t o, fieldSymbol model t o ++ "Object"] ++
        " from './" ++ (o.name ++ ".base") ++ "';" := by
  have opening : "export \x7b " = "export " ++ "\x7b " := by decide
  have middle : "Object \x7d from './" = "Object" ++ (" \x7d" ++ " from './") := by decide
  have closing : ".base';" = ".base" ++ "';" := by decide
  rw [reexportLine, opening, middle, closing]
  simp only [bracedNames, String.intercalate_cons_cons, String.intercalate_singleton,
    String.append_assoc]

/-- The line that exports all that a file or directory beside this file exports. -/
def starLine (target : String) : String := "export * from './" ++ target ++ "';"

theorem statement?_resolverExport (model : String) (t : RootType) (o : Operation) :
    (resolverExport model t o).statement? = some (reexportLine model t o) := by
  have source : singleQuoted ("./" ++ ResolverFile.stem o) = "'./" ++ o.name ++ ".base'" := by
    cases o <;> decide
  have statement : (resolverExport model t o).statement? =
      some ("export " ++ "" ++
        bracedNames [fieldSymbol model t o, fieldSymbol model t o ++ "Object"] ++ " from " ++
        singleQuoted ("./" ++ ResolverFile.stem o) ++ ";") := rfl
  have opening : " from './" = " from " ++ "'./" := by decide
  have quote : ".base'" = ".base" ++ "'" := by decide
  have closing : "';" = "'" ++ ";" := by decide
  rw [statement, source, reexportLine_eq, opening, quote, closing]
  simp only [String.append_assoc, String.empty_append]

theorem render_typeFile {config : CrudConfig} {model : String} {t : RootType}
    (filled : Plan.survivors config model t ≠ []) :
    (typeFile (Plan.surviving config model) t).render =
      ended ((Plan.survivors config model t).map (reexportLine model t)) := by
  have exports : ((Plan.surviving config model).ofType t).map (resolverExport model t) ≠ [] := by
    simpa using filled
  have file : typeFile (Plan.surviving config model) t =
      { exports := ((Plan.surviving config model).ofType t).map (resolverExport model t) } := rfl
  rw [file, render_exports exports, Plan.ofType_surviving, List.filterMap_map,
    ← List.filterMap_eq_map]
  have each : Export.statement? ∘ resolverExport model t = some ∘ reexportLine model t :=
    funext (statement?_resolverExport model t)
  rw [each]

def survivingTypes (config : CrudConfig) (model : String) : List RootType :=
  RootType.all.filter fun t => !(Plan.survivors config model t).isEmpty

theorem render_file (config : CrudConfig) (model : String) :
    (file (Plan.surviving config model)).render =
      ended (starLine "object.base" ::
        (survivingTypes config model).map fun t => starLine t.directory) := by
  have types : presentTypes (Plan.surviving config model) = survivingTypes config model := by
    simp only [presentTypes, Plan.ofType_surviving, survivingTypes]
  have each : Export.statement? ∘ (fun t : RootType => { source := some ("./" ++ t.directory) }) =
      some ∘ fun t => starLine t.directory := by
    funext t
    cases t <;> decide
  have object : Export.statement? { source := some "./object.base" } =
      some (starLine "object.base") := by decide
  rw [file, types, render_exports (List.cons_ne_nil _ _), List.filterMap_cons, object,
    List.filterMap_map, each, List.filterMap_eq_map]

end GraphqlCrud.Output.ModelIndex
