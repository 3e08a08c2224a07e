import GraphqlCrud.DocComment
import GraphqlCrud.Inputs.TypeName
import GraphqlCrud.Schema.Reference
/-!
Which input types are declared, and with which fields. Declared are the inputs that generated
resolvers can reach: those shared by all models, and those that belong to a model.
-/
namespace GraphqlCrud.Inputs

open Schema

/-- Texts that occur in the names of inputs shared by all models. -/
def sharedKeywords : List String := ["Filter", "Compound", "UpdateOperations"]

/-- Texts that follow the name of a model in the names of its inputs. -/
def modelKeywords : List String := [
  "Where", "ScalarWhere", "Create", "Update", "Upsert", "OrderBy", "CountOrderBy", "MaxOrderBy",
  "MinOrderBy", "AvgOrderBy", "SumOrderBy"]

def nestedFields : List String := [
  "create", "connectOrCreate", "createMany", "upsert", "update", "updateMany", "delete",
  "deleteMany"]

inductive FieldType where
  | shorthand (method : String)
  | named (type : String) (isList : Bool)
deriving Repr, DecidableEq

structure FieldDeclaration where
  name : String
  isRequired : Bool
  type : FieldType
deriving Repr, DecidableEq

/-- An input type to declare, the name of the client's type that it stands for, and the names of
the fields that it leaves out. -/
structure InputDeclaration where
  name : String
  clientName : String
  category : Option InputCategory
  fields : List FieldDeclaration
  dropped : List String
deriving Repr, DecidableEq

/-- An input type may not be empty, so one without fields gets a placeholder. -/
def InputDeclaration.isEmpty (d : InputDeclaration) : Bool := d.fields.isEmpty

/-- The last of the items with the greatest key. -/
def greatestBy {α : Type} (key : α → Nat) : List α → Option α
  | [] => none
  | x :: rest =>
    match greatestBy key rest with
    | none => some x
    | some y => if key y < key x then some x else some y

/-- Whether the input's name is that of the model, then a keyword, then anything. -/
def belongsTo (inputName : String) (m : Model) : Bool :=
  match Text.dropLeading? m.name inputName with
  | some rest => modelKeywords.any fun keyword => Text.begins keyword rest
  | none => false

/-- The model that an input belongs to: the one with the longest name, and the last of several. -/
def owner? (document : Document) (inputName : String) : Option Model :=
  greatestBy (fun m => m.name.utf8ByteSize) (document.models.filter (belongsTo inputName))

def isSelected (document : Document) (inputName : String) : Bool :=
  sharedKeywords.any (fun keyword => Text.occurs keyword inputName) ||
    (owner? document inputName).isSome

def categoryOf? (owner : Option Model) (inputName : String) : Option InputCategory := do
  let rest ← Text.dropLeading? (← owner).name inputName
  InputCategory.all.find? fun c => Text.begins c.keyword rest

def isOmitted (owner : Option Model) (fieldName : String) (category : Option InputCategory) :
    Bool :=
  match owner.bind (·.field? fieldName) with
  | none => false
  | some field =>
    let omission := (DocComment.parse field.documentation).omission
    match category with
    | some c => omission.omitsInput c
    | none => omission.omitsObject

def excludedNames (config : Config) (owner : Option Model) (category : Option InputCategory) :
    List String :=
  match category, owner with
  | some c, some m => config.inputs.excludedFields.names c m.name
  | _, _ => []

def isDropped (config : Config) (owner : Option Model) (category : Option InputCategory)
    (fieldName : String) : Bool :=
  (config.global.noNestedInput && nestedFields.contains fieldName) ||
    (excludedNames config owner category).contains fieldName ||
    isOmitted owner fieldName category

/-- Whether a field takes an identifier: a key field in its model's unique-where input. -/
def takesId (config : Config) (inputName : String) (owner : Option Model) (fieldName : String) :
    Bool :=
  config.inputs.mapsIds &&
    match owner with
    | none => false
    | some m =>
      inputName == m.name ++ "WhereUniqueInput" &&
        match m.field? fieldName with
        | some f => f.isId
        | none => false

def fieldType (takesId : Bool) (main : TypeRef) : FieldType :=
  match shorthand? main.name, main.location with
  | some method, .scalar =>
    if main.isList then .shorthand (method ++ "List")
    else if takesId then .shorthand "id"
    else .shorthand method
  | _, _ => .named (declaredName main.name) main.isList

/-- The declaration of a field; a field that accepts no type has none. -/
def declareField? (config : Config) (inputName : String) (owner : Option Model) (f : InputField) :
    Option FieldDeclaration :=
  f.mainType?.map fun main =>
    { name := f.name, isRequired := f.isRequired
      type := fieldType (takesId config inputName owner f.name) main }

def declare (document : Document) (config : Config) (input : InputType) (name : String) :
    InputDeclaration :=
  let owner := owner? document name
  let category := categoryOf? owner name
  let isDropped := fun (f : InputField) => isDropped config owner category f.name
  { name, clientName := input.name, category
    fields :=
      (input.fields.filter fun f => !isDropped f).filterMap (declareField? config name owner)
    dropped := (input.fields.filter isDropped).map (·.name) }

/-- Whether an input gives way to the one that has its name without the marker. -/
def hasTwin (document : Document) (input : InputType) : Bool :=
  let name := checkedName input.name
  name != input.name && document.inputs.any (·.name == name)

/-- The inputs to declare, each with its declared name. Of several with one name the first counts. -/
def chosen (document : Document) : List (InputType × String) :=
  (document.inputs.foldl (fun (held : List (InputType × String)) input =>
    let name := checkedName input.name
    if isSelected document name && !hasTwin document input && !held.any (·.2 == name) then
      held ++ [(input, name)]
    else held) [])

def select (document : Document) (config : Config) : List InputDeclaration :=
  (chosen document).map fun (input, name) => declare document config input name

end GraphqlCrud.Inputs
