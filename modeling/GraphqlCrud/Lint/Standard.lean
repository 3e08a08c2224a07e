import GraphqlCrud.Lint.DuplicateModel
import GraphqlCrud.Lint.EmptyModel
import GraphqlCrud.Lint.ReservedName
import GraphqlCrud.Lint.UnknownRelation
import GraphqlCrud.Lint.UnusedFilter
/-!
The lints that every run uses unless it names others.
-/
namespace GraphqlCrud.Lint

def standard : List Lint := [
  duplicateModel, reservedName, unknownRelation, emptyModel, unusedFilter]

end GraphqlCrud.Lint
