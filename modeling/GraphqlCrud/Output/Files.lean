import GraphqlCrud.Output.InputTypes
import GraphqlCrud.Output.ModelIndex
import GraphqlCrud.Output.ModelObject
import GraphqlCrud.Output.Registration
import GraphqlCrud.Output.SharedObjects
import GraphqlCrud.Output.Utilities
/-!
All files of a run. Files are written in three groups: those of the models, those of the root, and
the input types; inside a group they keep the order in which they were made.
-/
namespace GraphqlCrud.Output

/-- The language of the generated files, and how their names end. -/
def language : String := "typescript"

def fileEnding : String := "ts"

inductive FileGroup where
  | model
  | root
  | inputs
deriving Repr, DecidableEq

namespace FileGroup

def all : List FileGroup := [.model, .root, .inputs]

def name : FileGroup → String
  | .model => "model"
  | .root => "root"
  | .inputs => "inputs"

end FileGroup

/-- A file to write: its path below the output directory, its text and its group. -/
structure OutputFile where
  path : String
  content : String
  group : FileGroup
deriving Repr, DecidableEq

namespace OutputFile

def generated (path content : String) (group : FileGroup) : OutputFile :=
  { path := Path.normal path, content, group }

def fullPath (f : OutputFile) (base : String) : String := Path.join base f.path

end OutputFile

def inGroupOrder (files : List OutputFile) : List OutputFile :=
  FileGroup.all.flatMap fun g => files.filter (·.group == g)

open Script in
private def modelFile (path : String) (file : SourceFile) : OutputFile :=
  .generated path file.render .model

private def rootFile (path : String) (file : Script.SourceFile) : OutputFile :=
  .generated path file.render .root

def resolverFiles (config : Config) (m : ModelOperations) : List OutputFile :=
  m.operations.map fun o =>
    let shape := ResolverShape.build m.model o config.crud
    modelFile (ResolverFile.path "" shape) (ResolverFile.file config shape)

def modelFiles (config : Config) (model : Schema.Model) (m : ModelOperations) : List OutputFile :=
  modelFile (ModelObject.path "" model.name) (ModelObject.file config.crud model) ::
    (resolverFiles config { m with model := model.name } ++
      (ModelIndex.presentTypes m).map (fun t =>
        modelFile (ModelIndex.typePath "" m.model t) (ModelIndex.typeFile m t)) ++
      [modelFile (ModelIndex.path "" m.model) (ModelIndex.file m)])

/-- The files of every planned model that the document has. -/
def allModelFiles (document : Schema.Document) (plan : Plan) (config : Config) : List OutputFile :=
  plan.models.flatMap fun m =>
    match document.model? m.model with
    | some model => modelFiles config model m
    | none => []

def rootFiles (plan : Plan) (config : Config) : List OutputFile :=
  [rootFile Utilities.path (Utilities.file config.global.builderPath),
    rootFile SharedObjects.path (SharedObjects.file (plan.models.map (·.model)) config)] ++
    if config.crud.generateAutocrud then
      [rootFile Registration.path (Registration.file plan config)]
    else []

/-- The files of a run in the order in which they are made. -/
def made (document : Schema.Document) (plan : Plan) (config : Config) : List OutputFile :=
  (if config.crud.isDisabled then []
    else allModelFiles document plan config ++ rootFiles plan config) ++
    if config.inputs.isDisabled then []
    else [.generated InputTypes.path (InputTypes.file document config).render .inputs]

/-- The files of a run in the order in which they are written. -/
def files (document : Schema.Document) (plan : Plan) (config : Config) : List OutputFile :=
  inGroupOrder (made document plan config)

end GraphqlCrud.Output
