import GraphqlCrud.Proofs.Inputs.Lowering
import GraphqlCrud.Proofs.Inputs.UsedNames
/-!
Key fields as identifiers. The option that maps key fields changes the type of a field only where a
unique-where input declares a key of its own model as a single value of a built-in scalar; every
other field of every declaration is the same with and without it.
-/
namespace GraphqlCrud

open Schema

/-- The configuration with the mapping of key fields in unique-where inputs on or off. -/
def Config.withMappedKeys (config : Config) (isMapped : Bool) : Config :=
  { config with inputs := { config.inputs with mapsIds := isMapped } }

/-- The model's field of that name, the first where it has several, is a key. -/
def Schema.Model.HasKey (m : Model) (name : String) : Prop :=
  ∃ f, m.field? name = some f ∧ f.isId = true

namespace Inputs

/-- The methods that declare a single value of a built-in scalar. -/
def singleMethods : List String := ["string", "int", "float", "boolean"]

/-- The input is the unique-where input of its owner, and the name is that of a key of the owner. -/
def IsKeyOf (document : Document) (inputName fieldName : String) : Prop :=
  ∃ m, owner? document inputName = some m ∧ inputName = m.name ++ "WhereUniqueInput" ∧
    m.HasKey fieldName

/-- A field that is declared as a single value of a built-in scalar. -/
def FieldDeclaration.IsSingle (f : FieldDeclaration) : Prop :=
  ∃ method ∈ singleMethods, f.type = .shorthand method

/-- What the option makes of the declaration of a field. -/
def KeyMapped (document : Document) (inputName : String) (f f' : FieldDeclaration) : Prop :=
  (IsKeyOf document inputName f.name ∧ f.IsSingle → f' = { f with type := .shorthand "id" }) ∧
    (¬ (IsKeyOf document inputName f.name ∧ f.IsSingle) → f' = f)

/-- What the option makes of a declaration. -/
structure MapsKeys (document : Document) (plain mapped : InputDeclaration) : Prop where
  name : mapped.name = plain.name
  clientName : mapped.clientName = plain.clientName
  category : mapped.category = plain.category
  dropped : mapped.dropped = plain.dropped
  fields : List.Forall₂ (KeyMapped document plain.name) plain.fields mapped.fields

variable {document : Document} {config : Config}

/-! The type of one field -/

theorem mem_singleMethods {name method : String} (h : shorthand? name = some method) :
    method ∈ singleMethods := by
  have every : ∀ s ∈ builtinMethods, s.2 ∈ singleMethods := by decide
  exact every _ (mem_builtinMethods h)

/-- A type of several values, and one that is named, is the same for keys. -/
theorem fieldType_true (t : TypeRef) :
    fieldType true t =
      if ∃ method ∈ singleMethods, fieldType false t = .shorthand method then .shorthand "id"
      else fieldType false t := by
  unfold fieldType
  split
  · next method short _ =>
    have single := mem_singleMethods short
    cases t.isList with
    | true =>
      have several : ∀ method ∈ singleMethods, method ++ "List" ∉ singleMethods := by decide
      refine (if_neg ?_).symm
      rintro ⟨other, member, same⟩
      exact several method single (FieldType.shorthand.inj same ▸ member)
    | false => exact (if_pos ⟨method, single, rfl⟩).symm
  · refine (if_neg ?_).symm
    rintro ⟨method, -, same⟩
    cases same

theorem takesId_mapped_iff {inputName fieldName : String} :
    takesId (config.withMappedKeys true) inputName (owner? document inputName) fieldName = true ↔
      IsKeyOf document inputName fieldName := by
  unfold takesId IsKeyOf Schema.Model.HasKey
  cases owner? document inputName with
  | none => simp
  | some m => cases field : m.field? fieldName <;> simp [Config.withMappedKeys, field]

theorem keyMapped_declareRule (name : String) (f : InputField) :
    Option.Rel (KeyMapped document name)
      (declareRule document (config.withMappedKeys false) name f)
      (declareRule document (config.withMappedKeys true) name f) := by
  unfold declareRule declareField?
  cases f.mainType? with
  | none => exact .none
  | some t =>
    have plain : takesId (config.withMappedKeys false) name (owner? document name) f.name = false :=
      rfl
    refine .some ?_
    rw [plain]
    -- Without the option no field takes an identifier; with it, those that are keys do.
    cases takes : takesId (config.withMappedKeys true) name (owner? document name) f.name with
    | false =>
      have other : ¬ IsKeyOf document name f.name := by
        intro key
        cases takes.symm.trans (takesId_mapped_iff.mpr key)
      exact ⟨fun both => absurd both.1 other, fun _ => rfl⟩
    | true =>
      have key : IsKeyOf document name f.name := takesId_mapped_iff.mp takes
      dsimp only [KeyMapped, FieldDeclaration.IsSingle]
      rw [fieldType_true]
      constructor
      · rintro ⟨-, single⟩
        rw [if_pos single]
      · intro either
        rw [if_neg fun single => either ⟨key, single⟩]

theorem mapsKeys_declare (input : InputType) (name : String) :
    MapsKeys document (declare document (config.withMappedKeys false) input name)
      (declare document (config.withMappedKeys true) input name) where
  name := rfl
  clientName := rfl
  category := rfl
  dropped := rfl
  fields := by
    rw [fields_declare, fields_declare]
    exact List.rel_filterMap (R := Eq) (fun f _ same => same ▸ keyMapped_declareRule name f)
      (List.forall₂_eq_eq_eq ▸ rfl)

/-- The option makes identifiers of the keys that unique-where inputs take as single values, and
does nothing else. -/
theorem select_mapsKeys (document : Document) (config : Config) :
    List.Forall₂ (MapsKeys document) (select document (config.withMappedKeys false))
      (select document (config.withMappedKeys true)) := by
  rw [select, select, List.forall₂_map_left_iff, List.forall₂_map_right_iff, List.forall₂_same]
  intro c _
  exact mapsKeys_declare c.1 c.2

end Inputs
end GraphqlCrud
