import GraphqlCrud.Config.Basic
import GraphqlCrud.Finding
import GraphqlCrud.Schema.Basic
/-!
Lints look at a schema, together with the options that apply to it, and say what is wrong there.
-/
namespace GraphqlCrud

structure Lint where
  name : String
  description : String
  check : Schema.Document → Config → List Finding

namespace Lint

def phase : String := "validate"

def modelPlace (model : String) : String := "models." ++ model

/-- What the lint finds, each finding under the name of a lint. -/
def findings (l : Lint) (document : Schema.Document) (config : Config) : List Finding :=
  (l.check document config).map (·.ofLint l.name)

end Lint
end GraphqlCrud
