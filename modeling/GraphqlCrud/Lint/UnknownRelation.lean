import GraphqlCrud.Lint.Basic
/-!
Relations that lead to no model of the schema.
-/
namespace GraphqlCrud.Lint

/-- Whether the field is a relation to a model that the document does not have. -/
def isDangling (document : Schema.Document) (f : Schema.Field) : Bool :=
  f.isRelation && (document.model? f.type).isNone

def danglingFinding (m : Schema.Model) (f : Schema.Field) : Finding :=
  { severity := .error, phase
    message :=
      "relation '" ++ m.name ++ "." ++ f.name ++ "' points at unknown model '" ++ f.type ++ "'"
    location := some (modelPlace m.name ++ "." ++ f.name) }

def unknownRelation : Lint where
  name := "unknown-relation"
  description := "Detect relation fields whose target model does not exist"
  check document _ := document.models.flatMap fun m =>
    (m.fields.filter (isDangling document)).map (danglingFinding m)

end GraphqlCrud.Lint
