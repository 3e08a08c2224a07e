import Mathlib.Data.List.Basic
import GraphqlCrud.Output.Files
/-!
The files of any plan before they are printed: source files, each with the path where it is to stand.
-/
namespace GraphqlCrud.Output

open Schema Script

/-- A source file, and where it is to stand. -/
structure Page where
  path : String
  source : SourceFile
  group : FileGroup

def Page.output (p : Page) : OutputFile := .generated p.path p.source.render p.group

theorem Page.path_output (p : Page) : p.output.path = Path.normal p.path := rfl

def resolverPage (config : Config) (r : ResolverShape) : Page :=
  { path := ResolverFile.path "" r, source := ResolverFile.file config r, group := .model }

def resolverPages (config : Config) (m : ModelOperations) : List Page :=
  m.operations.map fun o => resolverPage config (ResolverShape.build m.model o config.crud)

def modelPages (config : Config) (model : Model) (m : ModelOperations) : List Page :=
  { path := ModelObject.path "" model.name, source := ModelObject.file config.crud model,
    group := .model } ::
    (resolverPages config { m with model := model.name } ++
      (ModelIndex.presentTypes m).map (fun t =>
        { path := ModelIndex.typePath "" m.model t, source := ModelIndex.typeFile m t,
          group := .model }) ++
      [{ path := ModelIndex.path "" m.model, source := ModelIndex.file m, group := .model }])

def utilitiesPage (config : Config) : Page :=
  { path := Utilities.path, source := Utilities.file config.global.builderPath, group := .root }

def rootPages (plan : Plan) (config : Config) : List Page :=
  [utilitiesPage config,
    { path := SharedObjects.path, group := .root
      source := SharedObjects.file (plan.models.map (·.model)) config }] ++
    if config.crud.generateAutocrud then
      [{ path := Registration.path, source := Registration.file plan config, group := .root }]
    else []

def inputPage (document : Document) (config : Config) : Page :=
  { path := InputTypes.path, source := InputTypes.file document config, group := .inputs }

/-- What every planned model that the document has contributes. -/
def ofModels {α : Type} (document : Document) (plan : Plan)
    (each : Model → ModelOperations → List α) : List α :=
  plan.models.flatMap fun m =>
    match document.model? m.model with
    | some model => each model m
    | none => []

def pages (document : Document) (plan : Plan) (config : Config) : List Page :=
  (if config.crud.isDisabled then []
    else ofModels document plan (modelPages config) ++ rootPages plan config) ++
    if config.inputs.isDisabled then [] else [inputPage document config]

variable {document : Document} {plan : Plan} {config : Config}

theorem map_ofModels {α β : Type} (f : α → β) (each : Model → ModelOperations → List α) :
    (ofModels document plan each).map f =
      ofModels document plan fun model m => (each model m).map f := by
  rw [ofModels, List.map_flatMap]
  refine List.flatMap_congr fun m _ => ?_
  split <;> rfl

theorem mem_ofModels {α : Type} {each : Model → ModelOperations → List α} {a : α} :
    a ∈ ofModels document plan each ↔
      ∃ m ∈ plan.models, ∃ model, document.model? m.model = some model ∧ a ∈ each model m := by
  rw [ofModels, List.mem_flatMap]
  refine exists_congr fun m => and_congr_right fun _ => ?_
  cases document.model? m.model <;> simp

theorem made_eq_map_pages (document : Document) (plan : Plan) (config : Config) :
    made document plan config = (pages document plan config).map Page.output := by
  have models : allModelFiles document plan config =
      (ofModels document plan (modelPages config)).map Page.output := by
    rw [map_ofModels]
    simp only [modelPages, resolverPages, List.map_cons, List.map_append, List.map_map,
      List.map_nil]
    rfl
  have root : rootFiles plan config = (rootPages plan config).map Page.output := by
    rw [rootFiles, rootPages]
    split <;> rfl
  rw [made, pages, models, root]
  split <;> split <;> simp <;> rfl

end GraphqlCrud.Output
