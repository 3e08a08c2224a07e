import GraphqlCrud.Proofs.Inputs.DeclaredNames
import GraphqlCrud.Proofs.Schema.Reference
/-!
Which names the declarations of inputs use for the types of their fields.
-/
namespace GraphqlCrud.Inputs

open Schema

def FieldType.name? : FieldType → Option String
  | .shorthand _ => none
  | .named type _ => some type

/-- A field of an input that its declaration keeps. -/
def IsKeptField (document : Document) (config : Config) (c : InputType × String)
    (f : InputField) : Prop :=
  f ∈ c.1.fields ∧
    isDropped config (owner? document c.2) (categoryOf? (owner? document c.2) c.2) f.name = false

variable {document : Document} {config : Config} {c : InputType × String}

theorem mem_inputs_of_mem_chosen (h : c ∈ chosen document) : c.1 ∈ document.inputs := by
  have candidate := (mem_chosen.mp h).mem
  obtain ⟨paired, -⟩ := List.mem_filter.mp candidate
  obtain ⟨input, member, rfl⟩ := List.mem_map.mp paired
  exact member

theorem mem_fields_declare {d : FieldDeclaration} :
    d ∈ (declare document config c.1 c.2).fields ↔
      ∃ f, IsKeptField document config c f ∧
        declareField? config c.2 (owner? document c.2) f = some d := by
  simp [declare, IsKeptField, List.mem_filterMap]

/-- The built-in scalars, each with the method that declares a field of it. -/
def builtinMethods : List (String × String) :=
  [("String", "string"), ("Int", "int"), ("Float", "float"), ("Boolean", "boolean")]

theorem mem_builtinMethods {name method : String} (h : shorthand? name = some method) :
    (name, method) ∈ builtinMethods := by
  unfold shorthand? at h
  split at h
  · obtain rfl := Option.some.inj h
    decide
  · obtain rfl := Option.some.inj h
    decide
  · obtain rfl := Option.some.inj h
    decide
  · obtain rfl := Option.some.inj h
    decide
  · cases h

theorem fieldType_of_long {t : TypeRef} (long : shorthand? t.name = none) (takesId : Bool) :
    fieldType takesId t = .named (declaredName t.name) t.isList := by
  rw [fieldType, long]

theorem fieldType_of_ne_scalar {t : TypeRef} (h : t.location ≠ .scalar) (takesId : Bool) :
    fieldType takesId t = .named (declaredName t.name) t.isList := by
  unfold fieldType
  split
  · next location => exact absurd location h
  · rfl

theorem name?_fieldType_of_shorthand {t : TypeRef} {method : String}
    (short : shorthand? t.name = some method) (location : t.location = .scalar) (takesId : Bool) :
    (fieldType takesId t).name? = none := by
  simp only [fieldType, short, location]
  split
  · rfl
  · split <;> rfl

theorem name?_fieldType_of_scalar {t : TypeRef} (location : t.location = .scalar)
    (known : t.name ∈ scalarNames) {takesId : Bool} {name : String}
    (h : (fieldType takesId t).name? = some name) :
    ∃ s : SpecialScalar, t.name = s.name ∧ name = declaredName s.name := by
  -- The builtin scalars have methods of their own, so that their names are never written.
  rcases List.mem_append.mp known with builtin | special
  · have short : ∀ n ∈ ["String", "Int", "Float", "Boolean"], (shorthand? n).isSome = true := by
      decide
    obtain ⟨method, hmethod⟩ := Option.isSome_iff_exists.mp (short t.name builtin)
    rw [name?_fieldType_of_shorthand hmethod location] at h
    cases h
  · obtain ⟨s, -, hs⟩ := List.mem_map.mp special
    have long : shorthand? t.name = none := by
      rw [← hs]
      cases s <;> rfl
    rw [fieldType_of_long long] at h
    refine ⟨s, hs.symm, ?_⟩
    rw [hs]
    exact (Option.some.inj h).symm

/-- The names of types in the declaration of an input. One without fields uses the placeholder. -/
def InputDeclaration.usedNames (d : InputDeclaration) (placeholder : String) : List String :=
  if d.isEmpty then [placeholder] else d.fields.filterMap (·.type.name?)

theorem mem_usedNames_declare {placeholder name : String}
    (filled : (declare document config c.1 c.2).isEmpty = false) :
    name ∈ (declare document config c.1 c.2).usedNames placeholder ↔
      ∃ f t, IsKeptField document config c f ∧ f.mainType? = some t ∧
        (fieldType (takesId config c.2 (owner? document c.2) f.name) t).name? = some name := by
  rw [InputDeclaration.usedNames, filled, if_neg Bool.false_ne_true, List.mem_filterMap]
  constructor
  · rintro ⟨d, hd, named⟩
    obtain ⟨f, hf, declared⟩ := mem_fields_declare.mp hd
    obtain ⟨t, ht, rfl⟩ := Option.map_eq_some_iff.mp declared
    exact ⟨f, t, hf, ht, named⟩
  · rintro ⟨f, t, hf, ht, named⟩
    exact ⟨_, mem_fields_declare.mpr ⟨f, hf, Option.map_eq_some_iff.mpr ⟨t, ht, rfl⟩⟩, named⟩

theorem isEmpty_declare_eq_false {f : InputField} {t : TypeRef}
    (hf : IsKeptField document config c f) (ht : f.mainType? = some t) :
    (declare document config c.1 c.2).isEmpty = false := by
  rw [InputDeclaration.isEmpty, List.isEmpty_eq_false_iff]
  exact List.ne_nil_of_mem
    (mem_fields_declare.mpr ⟨f, hf, Option.map_eq_some_iff.mpr ⟨t, ht, rfl⟩⟩)

end GraphqlCrud.Inputs
