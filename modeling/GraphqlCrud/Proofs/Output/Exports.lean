import GraphqlCrud.Proofs.Output.Artifacts
import GraphqlCrud.Proofs.Output.IndexFiles
import GraphqlCrud.Proofs.Script.Declarations
/-!
What generated files export, as their texts say it: what they declare, and what their lines take
over from other files.
-/
namespace GraphqlCrud.Output

open Text Script GraphqlCrud.Path

/-- Where `./target` leads from a directory: to a file with the ending of the language if there is
one, and otherwise to the index of a directory. -/
inductive Leads (files : List OutputFile) (directory : List String) (target : String) :
    List String → String → Prop where
  | file (h : IsFile files (directory ++ [target ++ ".ts"])) :
    Leads files directory target directory (target ++ ".ts")
  | index (h : ¬ IsFile files (directory ++ [target ++ ".ts"])) :
    Leads files directory target (directory ++ [target]) "index.ts"

/-- The file of that name in a directory exports the symbol. -/
inductive Exports (files : List OutputFile) : List String → String → String → Prop where
  | declared {directory name content symbol}
    (file : HasFile files (ofParts (directory ++ [name])) content)
    (declares : Declares content symbol) : Exports files directory name symbol
  | listed {directory name content names target directory' name' symbol}
    (file : HasFile files (ofParts (directory ++ [name])) content)
    (line : "export " ++ bracedNames names ++ " from './" ++ target ++ "';" ∈ lines content)
    (named : symbol ∈ names) (leads : Leads files directory target directory' name')
    (exported : Exports files directory' name' symbol) : Exports files directory name symbol
  | all {directory name content target directory' name' symbol}
    (file : HasFile files (ofParts (directory ++ [name])) content)
    (line : ModelIndex.starLine target ∈ lines content)
    (leads : Leads files directory target directory' name')
    (exported : Exports files directory' name' symbol) : Exports files directory name symbol

namespace ResolverFile

theorem constantNames_file (config : Config) (model : String) (o : Operation) :
    (file config (ResolverShape.build model o config.crud)).constantNames =
      [Registration.fieldSymbol model o.rootType o ++ "Args",
        Registration.fieldSymbol model o.rootType o ++ "Object",
        Registration.fieldSymbol model o.rootType o] := rfl

end ResolverFile

theorem ModelObject.constantNames_file (config : CrudConfig) (m : Schema.Model) :
    (ModelObject.file config m).constantNames = [m.name ++ "Object"] := rfl

end GraphqlCrud.Output
