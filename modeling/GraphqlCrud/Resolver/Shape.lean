import GraphqlCrud.Config.Basic
import GraphqlCrud.Operation
import GraphqlCrud.Text.Lowercase
/-!
What the resolver of an operation looks like: its arguments, what it answers, and the call on the
database client that it makes.
-/
namespace GraphqlCrud

/-- The type of an argument: a generated input or enum, or a list of them, or a built-in scalar. -/
inductive ArgumentType where
  | input (name : String) (isList : Bool)
  | scalar (name : String)
deriving Repr, DecidableEq

structure Argument where
  name : String
  type : ArgumentType
  isRequired : Bool
deriving Repr, DecidableEq

inductive Answer where
  | model
  | modelList
  | int
  | batchPayload
deriving Repr, DecidableEq

/-- How a resolver reaches the database: one call with parameters, and with the caller's selection
if that is spread into them; or one call for each row inside a transaction. -/
inductive DatabaseCall where
  | call (method : String) (parameters : List (String × String)) (spreadsQuery : Bool)
  | transactionCreate
deriving Repr, DecidableEq

structure ResolverShape where
  model : String
  operation : Operation
  arguments : List Argument
  answer : Answer
  isNullable : Bool
  body : DatabaseCall
deriving Repr, DecidableEq

namespace ResolverShape

private def one (name type : String) (isRequired : Bool) : Argument :=
  { name, type := .input type false, isRequired }

private def many (name type : String) (isRequired : Bool) : Argument :=
  { name, type := .input type true, isRequired }

/-- A parameter that takes over an argument as it is. -/
private def given (name : String) : String × String := (name, "args." ++ name)

/-- A parameter that takes over an argument, and leaves out one that is empty. -/
private def optional (name : String) : String × String := (name, "args." ++ name ++ " || undefined")

def listArguments (m : String) : List Argument := [
  one "where" (m ++ "WhereInput") false,
  many "orderBy" (m ++ "OrderByWithRelationInput") false,
  one "cursor" (m ++ "WhereUniqueInput") false,
  { name := "take", type := .scalar "Int", isRequired := false },
  { name := "skip", type := .scalar "Int", isRequired := false }]

def distinctArgument (m : String) : Argument := many "distinct" (m ++ "ScalarFieldEnum") false

def listParameters : List (String × String) :=
  ["where", "cursor", "take", "skip", "orderBy"].map optional

def argumentsOf (m : String) : Operation → List Argument
  | .findFirst | .findMany => listArguments m ++ [distinctArgument m]
  | .count => listArguments m
  | .findUnique | .deleteOne => [one "where" (m ++ "WhereUniqueInput") true]
  | .createOne => [one "data" (m ++ "CreateInput") true]
  | .createMany => [many "data" (m ++ "CreateManyInput") true]
  | .updateOne => [
      one "where" (m ++ "WhereUniqueInput") true,
      one "data" (m ++ "UpdateInput") true]
  | .updateMany => [
      one "where" (m ++ "WhereInput") false,
      one "data" (m ++ "UpdateManyMutationInput") true]
  | .upsertOne => [
      one "where" (m ++ "WhereUniqueInput") true,
      one "create" (m ++ "CreateInput") true,
      one "update" (m ++ "UpdateInput") true]
  | .deleteMany => [one "where" (m ++ "WhereInput") true]

def answerOf : Operation → Answer
  | .findFirst | .findUnique | .createOne | .updateOne | .upsertOne | .deleteOne => .model
  | .findMany | .createMany => .modelList
  | .count => .int
  | .updateMany | .deleteMany => .batchPayload

def isNullableOf : Operation → Bool
  | .findFirst | .findUnique | .updateOne | .deleteOne | .deleteMany => true
  | _ => false

def bodyOf (mode : CreateManyMode) : Operation → DatabaseCall
  | .findFirst => .call "findFirst" (listParameters ++ [optional "distinct"]) true
  | .findMany => .call "findMany" (listParameters ++ [optional "distinct"]) true
  | .findUnique => .call "findUnique" [given "where"] true
  | .count => .call "count" listParameters false
  | .createOne => .call "create" [given "data"] true
  | .createMany =>
    match mode with
    | .bulk => .call "createManyAndReturn" [given "data", ("select", "query.select")] false
    | .transaction => .transactionCreate
  | .updateOne => .call "update" [given "where", given "data"] true
  | .updateMany => .call "updateMany" [optional "where", given "data"] false
  | .upsertOne => .call "upsert" [given "where", given "create", given "update"] true
  | .deleteOne => .call "delete" [given "where"] true
  | .deleteMany => .call "deleteMany" [given "where"] false

def build (model : String) (operation : Operation) (config : CrudConfig) : ResolverShape :=
  { model, operation
    arguments := argumentsOf model operation
    answer := answerOf operation
    isNullable := isNullableOf operation
    body := bodyOf config.createManyMode operation }

def rootType (r : ResolverShape) : RootType := r.operation.rootType

def fieldName (r : ResolverShape) : String := r.operation.resolverName r.model

def exportName (r : ResolverShape) : String := r.fieldName ++ r.rootType.name

def argumentsName (r : ResolverShape) : String := r.exportName ++ "Args"

def objectName (r : ResolverShape) : String := r.exportName ++ "Object"

/-- The part of the database client that belongs to the model. -/
def delegate (r : ResolverShape) (prismaCaller : String) : String :=
  prismaCaller ++ "." ++ Text.lowercaseFirst r.model

end ResolverShape
end GraphqlCrud
