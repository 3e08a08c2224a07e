import GraphqlCrud.Lint.Basic
import GraphqlCrud.Operation
/-!
Names in the exact filters that no resolver has. Lists of fragments are not looked at.
-/
namespace GraphqlCrud.Lint

def possibleNames (document : Schema.Document) : List String :=
  document.models.flatMap fun m => Operation.all.map (·.resolverName m.name)

/-- The filters that hold whole names: the key of each, and its entries. -/
def exactFilters (config : CrudConfig) : List (String × List String) := [
  ("includeResolversExact", config.includeExact),
  ("excludeResolversExact", config.excludeExact)]

def unusedEntries (document : Schema.Document) (entries : List String) : List String :=
  entries.filter fun entry => !(possibleNames document).contains entry

def unusedFinding (key entry : String) : Finding :=
  { severity := .warning, phase
    message := "'" ++ entry ++ "' in " ++ key ++ " matches no resolver"
    location := some ("crud." ++ key) }

def unusedFilter : Lint where
  name := "unused-filter"
  description := "Warn about exact resolver filters that match no generated resolver"
  check document config := (exactFilters config.crud).flatMap fun (key, entries) =>
    (unusedEntries document entries).map (unusedFinding key)

end GraphqlCrud.Lint
