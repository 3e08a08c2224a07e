import GraphqlCrud.Proofs.Inputs.DeclaredNames
import GraphqlCrud.Resolver.Shape
import GraphqlCrud.Text.Identifier
/-!
Which inputs and enums the arguments of a resolver refer to. Each is named after the model, with a
suffix that depends on the operation alone.
-/
namespace GraphqlCrud

def ArgumentType.inputName? : ArgumentType → Option String
  | .input name _ => some name
  | .scalar _ => none

namespace ResolverShape

def inputNames (r : ResolverShape) : List String := r.arguments.filterMap (·.type.inputName?)

/-- What follows the model's name in the names of the inputs that every list operation takes. -/
def listSuffixes : List String := ["WhereInput", "OrderByWithRelationInput", "WhereUniqueInput"]

/-- What follows the model's name in the name of the enum of its scalar fields. -/
def distinctSuffix : String := "ScalarFieldEnum"

/-- What follows the model's name in the names of all that an operation takes. -/
def inputSuffixes : Operation → List String
  | .findFirst | .findMany => listSuffixes ++ [distinctSuffix]
  | .count => listSuffixes
  | .findUnique | .deleteOne => ["WhereUniqueInput"]
  | .createOne => ["CreateInput"]
  | .createMany => ["CreateManyInput"]
  | .updateOne => ["WhereUniqueInput", "UpdateInput"]
  | .updateMany => ["WhereInput", "UpdateManyMutationInput"]
  | .upsertOne => ["WhereUniqueInput", "CreateInput", "UpdateInput"]
  | .deleteMany => ["WhereInput"]

theorem inputNames_build (model : String) (o : Operation) (config : CrudConfig) :
    (build model o config).inputNames = (inputSuffixes o).map (model ++ ·) := by
  cases o <;> rfl

/-- The names of the arguments depend on the operation alone, and all are identifiers. -/
theorem isIdentifier_argument {model : String} {o : Operation} {config : CrudConfig} {a : Argument}
    (h : a ∈ (build model o config).arguments) : Text.isIdentifier a.name = true := by
  have same : (build model o config).arguments.map (·.name) =
      (build "" o {}).arguments.map (·.name) := by cases o <;> rfl
  have decided : ∀ o, ∀ name ∈ (build "" o {}).arguments.map (·.name),
      Text.isIdentifier name = true := by
    intro o
    cases o <;> decide
  have member : a.name ∈ (build model o config).arguments.map (·.name) := List.mem_map_of_mem h
  rw [same] at member
  exact decided o a.name member

theorem suffix_cases {o : Operation} {suffix : String} (h : suffix ∈ inputSuffixes o) :
    suffix = distinctSuffix ∨
      ∃ keyword ∈ Inputs.modelKeywords, ∃ rest, suffix = keyword ++ rest := by
  have decided : ∀ o, ∀ suffix ∈ inputSuffixes o, suffix = distinctSuffix ∨
      ∃ keyword ∈ Inputs.modelKeywords, Text.begins keyword suffix = true := by
    intro o
    cases o <;> decide
  rcases decided o suffix h with enum | ⟨keyword, hk, begins⟩
  · exact .inl enum
  · exact .inr ⟨keyword, hk, Text.begins_iff.mp begins⟩

theorem isIdentifier_suffix {o : Operation} {suffix : String} (h : suffix ∈ inputSuffixes o) :
    Text.isIdentifier suffix = true := by
  have decided : ∀ o, ∀ suffix ∈ inputSuffixes o, Text.isIdentifier suffix = true := by
    intro o
    cases o <;> decide
  exact decided o suffix h

/-- The marker of unchecked inputs is never brought in by a suffix. -/
theorem occurs_marker_append {o : Operation} {suffix : String} (h : suffix ∈ inputSuffixes o)
    (model : String) :
    Text.occurs Inputs.uncheckedMarker (model ++ suffix) =
      Text.occurs Inputs.uncheckedMarker model := by
  have decided : ∀ o, ∀ suffix ∈ inputSuffixes o,
      Text.occurs Inputs.uncheckedMarker suffix = false ∧
        suffix.toList.head?.any (· ∉ Inputs.uncheckedMarker.toList.tail) = true := by
    intro o
    cases o <;> decide
  obtain ⟨absent, begins⟩ := decided o suffix h
  obtain ⟨c, first, apart⟩ := (Option.any_eq_true _ _).mp begins
  obtain ⟨rest, hrest⟩ := List.head?_eq_some_iff.mp first
  exact Text.occurs_append_eq hrest (of_decide_eq_true apart) absent

end ResolverShape
end GraphqlCrud
