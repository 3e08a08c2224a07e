import GraphqlCrud.Output.ResolverFile
import GraphqlCrud.Plan
/-!
The index files of a model: one for each root type that the model has resolvers of, which exports
those resolvers, and one for the model, which exports its object and the other index files.
-/
namespace GraphqlCrud.Output.ModelIndex

open Script

/-- The export of a resolver: its field, and the object that defines the field. -/
def resolverExport (model : String) (t : RootType) (o : Operation) : Export :=
  let symbol := o.resolverName model ++ t.name
  { source := some ("./" ++ ResolverFile.stem o), names := [symbol, symbol ++ "Object"] }

def typePath (base model : String) (t : RootType) : String :=
  Path.join (Path.join (Path.join base model) t.directory) "index.ts"

def typeFile (m : ModelOperations) (t : RootType) : SourceFile :=
  { exports := (m.ofType t).map (resolverExport m.model t) }

def path (base model : String) : String := Path.join (Path.join base model) "index.ts"

def presentTypes (m : ModelOperations) : List RootType :=
  RootType.all.filter fun t => !(m.ofType t).isEmpty

def file (m : ModelOperations) : SourceFile :=
  { exports :=
      { source := some "./object.base" } ::
        (presentTypes m).map fun t => { source := some ("./" ++ t.directory) } }

end GraphqlCrud.Output.ModelIndex
