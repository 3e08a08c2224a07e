/-!
The operations that every model gets a resolver for, and the root type that each hangs off.
-/
namespace GraphqlCrud

inductive RootType where
  | query
  | mutation
deriving Repr, DecidableEq

namespace RootType

def all : List RootType := [.query, .mutation]

def name : RootType → String
  | .query => "Query"
  | .mutation => "Mutation"

def directory : RootType → String
  | .query => "queries"
  | .mutation => "mutations"

end RootType

inductive Operation where
  | findFirst
  | findMany
  | findUnique
  | count
  | createOne
  | createMany
  | updateOne
  | updateMany
  | upsertOne
  | deleteOne
  | deleteMany
deriving Repr, DecidableEq

namespace Operation

def all : List Operation := [
  .findFirst, .findMany, .findUnique, .count, .createOne, .createMany, .updateOne, .updateMany,
  .upsertOne, .deleteOne, .deleteMany]

def name : Operation → String
  | .findFirst => "findFirst"
  | .findMany => "findMany"
  | .findUnique => "findUnique"
  | .count => "count"
  | .createOne => "createOne"
  | .createMany => "createMany"
  | .updateOne => "updateOne"
  | .updateMany => "updateMany"
  | .upsertOne => "upsertOne"
  | .deleteOne => "deleteOne"
  | .deleteMany => "deleteMany"

def rootType : Operation → RootType
  | .findFirst | .findMany | .findUnique | .count => .query
  | _ => .mutation

def ofType (t : RootType) : List Operation := all.filter (·.rootType == t)

/-- Whether the operation answers with a number of records and not with records. -/
def isBatch : Operation → Bool
  | .updateMany | .deleteMany => true
  | _ => false

/-- Whether the operation passes the caller's selection on to the database client. -/
def isProjecting (o : Operation) : Bool := !o.isBatch

def resolverName (o : Operation) (model : String) : String := o.name ++ model

def ofName? (name : String) : Option Operation := all.find? (·.name == name)

end Operation
end GraphqlCrud
