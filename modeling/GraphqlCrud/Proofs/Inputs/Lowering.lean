import Mathlib.Data.List.Forall2
import GraphqlCrud.Inputs.Catalog
/-!
How the fields of an input become those of its declaration. Each field is declared, dropped by name,
or left out because it accepts no type; and the option against nested changes takes fields away from
declarations without touching anything else.
-/
namespace GraphqlCrud

open Schema

namespace Inputs

variable {document : Document} {config : Config}

theorem name_of_declareField? {inputName : String} {owner : Option Model} {f : InputField}
    {d : FieldDeclaration} (h : declareField? config inputName owner f = some d) :
    d.name = f.name := by
  obtain ⟨t, -, rfl⟩ := Option.map_eq_some_iff.mp h
  rfl

/-- The rule by which a declaration of the name drops fields. -/
def dropRule (document : Document) (config : Config) (name : String) (f : InputField) : Bool :=
  isDropped config (owner? document name) (categoryOf? (owner? document name) name) f.name

/-- The rule by which a declaration of the name declares the fields that it keeps. -/
def declareRule (document : Document) (config : Config) (name : String) (f : InputField) :
    Option FieldDeclaration :=
  declareField? config name (owner? document name) f

theorem fields_declare (input : InputType) (name : String) :
    (declare document config input name).fields =
      (input.fields.filter fun f => !dropRule document config name f).filterMap
        (declareRule document config name) := rfl

theorem dropped_declare (input : InputType) (name : String) :
    (declare document config input name).dropped =
      (input.fields.filter (dropRule document config name)).map (·.name) := rfl

/-- A declaration is made by its category and the two rules. -/
theorem declare_congr {document' : Document} {config' : Config} {name : String}
    (category : categoryOf? (owner? document' name) name =
      categoryOf? (owner? document name) name)
    (drops : dropRule document' config' name = dropRule document config name)
    (declares : declareRule document' config' name = declareRule document config name)
    (input : InputType) :
    declare document' config' input name = declare document config input name := by
  have fields : (declare document' config' input name).fields =
      (declare document config input name).fields := by
    rw [fields_declare, fields_declare, drops, declares]
  have dropped : (declare document' config' input name).dropped =
      (declare document config input name).dropped := by
    rw [dropped_declare, dropped_declare, drops]
  exact (InputDeclaration.mk.injEq ..).mpr ⟨rfl, rfl, category, fields, dropped⟩

/-- Dropping the fields of certain names besides takes just them away from the declaration. -/
theorem fields_declare_narrowed {wide narrow : Config} {name : String} (gone : String → Bool)
    (drops : ∀ f, dropRule document narrow name f =
      (gone f.name || dropRule document wide name f))
    (declares : declareRule document narrow name = declareRule document wide name)
    (input : InputType) : (declare document narrow input name).fields =
      (declare document wide input name).fields.filter fun f => !gone f.name := by
  rw [fields_declare, fields_declare, declares, List.filter_filterMap, List.filterMap_filter,
    List.filterMap_filter]
  refine List.filterMap_congr fun f _ => ?_
  rw [drops]
  -- A field that is not dropped anyway is declared under its own name.
  cases dropRule document wide name f with
  | true => simp
  | false =>
    cases declared : declareRule document wide name f with
    | none => simp
    | some d =>
      have same := name_of_declareField? declared
      cases lost : gone f.name <;> simp [Option.filter, same, lost]

end Inputs
end GraphqlCrud
