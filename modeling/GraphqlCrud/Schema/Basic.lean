/-!
A data model description as the generator sees it: models with their fields, enums, and the input
types that the database client accepts. Other parts of a description are not kept.
-/
namespace GraphqlCrud.Schema

inductive FieldKind where
  | scalar
  | object
  | enum
  | unsupported
deriving Repr, DecidableEq

def FieldKind.all : List FieldKind := [.scalar, .object, .enum, .unsupported]

def FieldKind.word : FieldKind → String
  | .scalar => "scalar"
  | .object => "object"
  | .enum => "enum"
  | .unsupported => "unsupported"

structure Field where
  name : String
  kind : FieldKind
  type : String
  relation : Option String := none
  isRequired : Bool := false
  isList : Bool := false
  isId : Bool := false
  documentation : Option String := none
deriving Repr, DecidableEq

def Field.isRelation (f : Field) : Bool := f.relation.isSome || f.kind == .object

/-- The key of a model that consists of several fields. -/
structure CompositeKey where
  name : Option String := none
  fields : List String
deriving Repr, DecidableEq

structure Model where
  name : String
  fields : List Field
  compositeKey : Option CompositeKey := none
  documentation : Option String := none
deriving Repr, DecidableEq

def Model.field? (m : Model) (name : String) : Option Field := m.fields.find? (·.name == name)

structure Enumeration where
  name : String
  values : List String
deriving Repr, DecidableEq

/-- Where a type that an input accepts is declared. -/
inductive Location where
  | scalar
  | input
  | enum
  | output
  | fieldReference
deriving Repr, DecidableEq

def Location.all : List Location := [.scalar, .input, .enum, .output, .fieldReference]

def Location.word : Location → String
  | .scalar => "scalar"
  | .input => "inputObjectTypes"
  | .enum => "enumTypes"
  | .output => "outputObjectTypes"
  | .fieldReference => "fieldRefTypes"

structure TypeRef where
  name : String
  location : Location
  isList : Bool := false
deriving Repr, DecidableEq

structure InputField where
  name : String
  isRequired : Bool := false
  accepts : List TypeRef
deriving Repr, DecidableEq

structure InputType where
  name : String
  fields : List InputField
deriving Repr, DecidableEq

/-- A list for the database client, and one for the models themselves. -/
structure Namespaces (α : Type) where
  client : List α := []
  model : List α := []
deriving Repr, DecidableEq

structure Document where
  models : List Model
  declaredEnums : List Enumeration := []
  inputTypes : Namespaces InputType := {}
  builtinEnums : Namespaces Enumeration := {}
deriving Repr, DecidableEq

namespace Document

/-- The input types that can be declared: those of the client. -/
def inputs (d : Document) : List InputType := d.inputTypes.client

def model? (d : Document) (name : String) : Option Model := d.models.find? (·.name == name)

def input? (d : Document) (name : String) : Option InputType := d.inputs.find? (·.name == name)

/-- Every enum to declare: those of the client first, then those of the data model. -/
def enums (d : Document) : List Enumeration := d.builtinEnums.client ++ d.declaredEnums

end Document
end GraphqlCrud.Schema
