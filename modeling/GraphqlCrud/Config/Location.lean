import GraphqlCrud.Path
import GraphqlCrud.Text.Blank
/-!
Which configuration file a run reads.
-/
namespace GraphqlCrud.Config

def pathVariable : String := "POTHOS_CRUD_CONFIG_PATH"

/-- The configuration file: the value of the variable unless it is blank, else the path that was
asked for. Both are seen from the directory of the schema. -/
def location? (override asked schemaDir : Option String) : Option String :=
  let chosen := match override.filter fun value => !Text.allBlank value with
    | some value => some value
    | none => asked
  chosen.map fun path => Path.join (schemaDir.getD "") path

end GraphqlCrud.Config
