/-!
Options of a generation run. Every option has a default, so that an empty configuration is one.
-/
namespace GraphqlCrud

/-- The shape of a create-many resolver: one call for all rows, or one call for each row inside a
transaction. -/
inductive CreateManyMode where
  | bulk
  | transaction
deriving Repr, DecidableEq

def CreateManyMode.word : CreateManyMode → String
  | .bulk => "bulk"
  | .transaction => "transaction"

def CreateManyMode.all : List CreateManyMode := [.bulk, .transaction]

/-- The groups of input types that fields can be left out of. -/
inductive InputCategory where
  | create
  | update
  | where_
  | orderBy
deriving Repr, DecidableEq

namespace InputCategory

def all : List InputCategory := [.create, .update, .where_, .orderBy]

def word : InputCategory → String
  | .create => "create"
  | .update => "update"
  | .where_ => "where"
  | .orderBy => "orderBy"

/-- What follows the model's name in the names of the category's input types. -/
def keyword : InputCategory → String
  | .create => "Create"
  | .update => "Update"
  | .where_ => "Where"
  | .orderBy => "OrderBy"

def ofWord? (word : String) : Option InputCategory := all.find? (·.word == word)

end InputCategory

structure GlobalConfig where
  outputDir : String := "./generated"
  deleteOutputFirst : Bool := false
  /-- Whether inputs lose the fields that change other models along. -/
  noNestedInput : Bool := true
  builderPath : String := "./builder"
deriving Repr, DecidableEq

def defaultPrismaImport : String := "import \x7b Prisma \x7d from '.prisma/client';"

structure CrudConfig where
  isDisabled : Bool := false
  generateAutocrud : Bool := true
  prismaImport : String := defaultPrismaImport
  inputsImport : String := "import * as Inputs from '../../inputs';"
  /-- The expression by which resolvers reach the database client. -/
  prismaCaller : String := "context.prisma"
  resolverImports : String := ""
  includeExact : List String := []
  includeContaining : List String := []
  excludeExact : List String := []
  excludeContaining : List String := []
  /-- Whether objects expose key fields as identifiers. -/
  mapsIds : Bool := false
  createManyMode : CreateManyMode := .bulk
deriving Repr, DecidableEq

/-- Names of fields to leave out, under the name of a model or under the key for all models. -/
abbrev ExclusionTable := List (String × List String)

structure Exclusions where
  create : ExclusionTable := []
  update : ExclusionTable := []
  where_ : ExclusionTable := []
  orderBy : ExclusionTable := []
deriving Repr, DecidableEq

namespace Exclusions

def allModels : String := "$all"

def table (e : Exclusions) : InputCategory → ExclusionTable
  | .create => e.create
  | .update => e.update
  | .where_ => e.where_
  | .orderBy => e.orderBy

/-- The names to leave out for a model: those for all models, then its own. -/
def names (e : Exclusions) (category : InputCategory) (model : String) : List String :=
  [allModels, model].flatMap fun key => ((e.table category).lookup key).getD []

end Exclusions

structure InputsConfig where
  isDisabled : Bool := false
  prismaImport : String := defaultPrismaImport
  excludedScalars : List String := []
  excludedFields : Exclusions := {}
  /-- Whether unique-where inputs take key fields as identifiers. -/
  mapsIds : Bool := false
deriving Repr, DecidableEq

def InputsConfig.excludesScalar (c : InputsConfig) (name : String) : Bool :=
  c.excludedScalars.contains name

structure Config where
  global : GlobalConfig := {}
  crud : CrudConfig := {}
  inputs : InputsConfig := {}
deriving Repr, DecidableEq

end GraphqlCrud
