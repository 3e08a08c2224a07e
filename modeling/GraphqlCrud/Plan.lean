import GraphqlCrud.NameFilter
import GraphqlCrud.Operation
import GraphqlCrud.Schema.Basic
/-!
The plan of a run: the operations that each model keeps, and the resolvers of the whole run in one
list. Both are kept, because some files are written by model and others by resolver.
-/
namespace GraphqlCrud

/-- The operations that a model keeps, by root type. -/
structure ModelOperations where
  model : String
  queries : List Operation := []
  mutations : List Operation := []
deriving Repr, DecidableEq

namespace ModelOperations

def ofType (m : ModelOperations) : RootType → List Operation
  | .query => m.queries
  | .mutation => m.mutations

def operations (m : ModelOperations) : List Operation := m.queries ++ m.mutations

def isEmpty (m : ModelOperations) : Bool := m.queries.isEmpty && m.mutations.isEmpty

end ModelOperations

structure Resolver where
  name : String
  model : String
  rootType : RootType
  operation : Operation
deriving Repr, DecidableEq

structure Plan where
  models : List ModelOperations := []
  resolvers : List Resolver := []
deriving Repr, DecidableEq

namespace Plan

def considerOperation (config : CrudConfig) (model : String)
    (soFar : ModelOperations × List Resolver) (o : Operation) : ModelOperations × List Resolver :=
  let (kept, resolvers) := soFar
  let name := o.resolverName model
  if config.keepsName name then
    let kept := match o.rootType with
      | .query => { kept with queries := kept.queries ++ [o] }
      | .mutation => { kept with mutations := kept.mutations ++ [o] }
    (kept, resolvers ++ [{ name, model, rootType := o.rootType, operation := o }])
  else (kept, resolvers)

def addModel (config : CrudConfig) (plan : Plan) (m : Schema.Model) : Plan :=
  let (kept, resolvers) :=
    Operation.all.foldl (considerOperation config m.name) ({ model := m.name }, plan.resolvers)
  { models := plan.models ++ [kept], resolvers }

def build (document : Schema.Document) (config : CrudConfig) : Plan :=
  document.models.foldl (addModel config) {}

def model? (plan : Plan) (name : String) : Option ModelOperations :=
  plan.models.find? (·.model == name)

def resolverCount (plan : Plan) : Nat := plan.resolvers.length

def resolversOf (plan : Plan) (t : RootType) : List Resolver :=
  plan.resolvers.filter (·.rootType == t)

end Plan
end GraphqlCrud
