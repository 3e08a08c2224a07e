import GraphqlCrud.Lint.Basic
/-!
Models without fields, whose object types have none either.
-/
namespace GraphqlCrud.Lint

def emptyFinding (m : Schema.Model) : Finding :=
  { severity := .warning, phase
    message := "model '" ++ m.name ++ "' has no fields"
    location := some (modelPlace m.name) }

def emptyModel : Lint where
  name := "empty-model"
  description := "Warn about models that would generate an object type without fields"
  check document _ := (document.models.filter (·.fields.isEmpty)).map emptyFinding

end GraphqlCrud.Lint
