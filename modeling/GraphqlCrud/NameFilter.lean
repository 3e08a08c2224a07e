import GraphqlCrud.Config.Basic
import GraphqlCrud.Text.Basic
/-!
Which resolvers are generated, by their names. A list of names to include decides alone; lists of
names to exclude count only when there is nothing to include by.
-/
namespace GraphqlCrud

/-- The rule that decides about a name, and how. -/
inductive Verdict where
  | includedExact
  | includedContaining
  | kept
  | notIncluded
  | excludedExact
  | excludedContaining
deriving Repr, DecidableEq

namespace Verdict

def keeps : Verdict → Bool
  | .includedExact | .includedContaining | .kept => true
  | .notIncluded | .excludedExact | .excludedContaining => false

def reason : Verdict → String
  | .includedExact => "included by includeResolversExact"
  | .includedContaining => "included by includeResolversContain"
  | .kept => "kept"
  | .notIncluded => "not in the include list"
  | .excludedExact => "excluded by excludeResolversExact"
  | .excludedContaining => "excluded by excludeResolversContain"

end Verdict

namespace CrudConfig

def containsAny (fragments : List String) (name : String) : Bool :=
  fragments.any fun fragment => Text.occurs fragment name

def verdict (c : CrudConfig) (name : String) : Verdict :=
  if c.includeExact ≠ [] then
    if c.includeExact.contains name then .includedExact else .notIncluded
  else if c.includeContaining ≠ [] then
    if containsAny c.includeContaining name then .includedContaining else .notIncluded
  else if c.excludeExact.contains name then .excludedExact
  else if containsAny c.excludeContaining name then .excludedContaining
  else .kept

def keepsName (c : CrudConfig) (name : String) : Bool := (c.verdict name).keeps

end CrudConfig
end GraphqlCrud
