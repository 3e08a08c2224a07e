import GraphqlCrud.Json.Reader
import GraphqlCrud.Json.Shape
import GraphqlCrud.Schema.Basic
/-!
Reading a description from its JSON text. The shape of each part is stated once, as the check of
that part; what passed the check is then picked out of the tree. Members with unknown keys are
ignored, so that descriptions with more in them can be read.
-/
namespace GraphqlCrud.Schema

open Json (Tree Check Defect)

private def required (key : String) (check : Check) : Check.Part := ⟨key, true, check⟩

private def defaulted (key : String) (check : Check) : Check.Part := ⟨key, false, check⟩

/-! Shapes. The order of the parts is their order in a description written without keys. -/

def fieldShape : Check := .record [
  required "name" .text,
  required "kind" (.choice (FieldKind.all.map FieldKind.word)),
  required "type" .text,
  defaulted "relationName" (.optional .text),
  defaulted "isRequired" .flag,
  defaulted "isList" .flag,
  defaulted "isId" .flag,
  defaulted "documentation" (.optional .text)]

def compositeKeyShape : Check := .record [
  defaulted "name" (.optional .text),
  required "fields" (.list .text)]

def modelShape : Check := .record [
  required "name" .text,
  required "fields" (.list fieldShape),
  defaulted "primaryKey" (.optional compositeKeyShape),
  defaulted "documentation" (.optional .text)]

def enumValueShape : Check := .record [required "name" .text]

def declaredEnumShape : Check := .record [
  required "name" .text,
  required "values" (.list enumValueShape)]

def dataModelShape : Check := .record [
  required "models" (.list modelShape),
  defaulted "enums" (.list declaredEnumShape)]

def typeRefShape : Check := .record [
  required "type" .text,
  required "location" (.choice (Location.all.map Location.word)),
  defaulted "isList" .flag]

def inputFieldShape : Check := .record [
  required "name" .text,
  defaulted "isRequired" .flag,
  required "inputTypes" (.list typeRefShape)]

def inputTypeShape : Check := .record [
  required "name" .text,
  required "fields" (.list inputFieldShape)]

def builtinEnumShape : Check := .record [
  required "name" .text,
  required "values" (.list .text)]

def namespacesShape (check : Check) : Check := .record [
  defaulted "prisma" (.list check),
  defaulted "model" (.list check)]

def clientShape : Check := .record [
  required "inputObjectTypes" (namespacesShape inputTypeShape),
  defaulted "enumTypes" (namespacesShape builtinEnumShape)]

def documentShape : Check := .record [
  required "datamodel" dataModelShape,
  required "schema" clientShape]

/-! Content -/

def textAt (t : Tree) (key : String) (place : Nat) : Option String :=
  (t.part? key place).bind Tree.text?

/-- A flag, which is off when it is absent. -/
def flagAt (t : Tree) (key : String) (place : Nat) : Bool :=
  ((t.part? key place).bind Tree.flag?).getD false

def wordAt (t : Tree) (key : String) (place : Nat) : Option String :=
  (t.part? key place).bind Tree.word?

def itemsAt? (t : Tree) (key : String) (place : Nat) : Option (List Tree) :=
  (t.part? key place).bind Tree.items?

/-- The items of a list that may be absent; then there are none. -/
def itemsAt (t : Tree) (key : String) (place : Nat) : List Tree :=
  (itemsAt? t key place).getD []

def Field.ofTree? (t : Tree) : Option Field := do
  let kind ← wordAt t "kind" 1
  some {
    name := ← textAt t "name" 0
    kind := ← FieldKind.all.find? (·.word == kind)
    type := ← textAt t "type" 2
    relation := textAt t "relationName" 3
    isRequired := flagAt t "isRequired" 4
    isList := flagAt t "isList" 5
    isId := flagAt t "isId" 6
    documentation := textAt t "documentation" 7 }

def CompositeKey.ofTree? (t : Tree) : Option CompositeKey := do
  some { name := textAt t "name" 0, fields := ← (← itemsAt? t "fields" 1).mapM Tree.text? }

def Model.ofTree? (t : Tree) : Option Model := do
  some {
    name := ← textAt t "name" 0
    fields := ← (← itemsAt? t "fields" 1).mapM Field.ofTree?
    compositeKey := (t.part? "primaryKey" 2).bind CompositeKey.ofTree?
    documentation := textAt t "documentation" 3 }

def Enumeration.ofDeclared? (t : Tree) : Option Enumeration := do
  some {
    name := ← textAt t "name" 0
    values := ← (← itemsAt? t "values" 1).mapM fun v => textAt v "name" 0 }

def Enumeration.ofBuiltin? (t : Tree) : Option Enumeration := do
  some { name := ← textAt t "name" 0, values := ← (← itemsAt? t "values" 1).mapM Tree.text? }

def TypeRef.ofTree? (t : Tree) : Option TypeRef := do
  let location ← wordAt t "location" 1
  some {
    name := ← textAt t "type" 0
    location := ← Location.all.find? (·.word == location)
    isList := flagAt t "isList" 2 }

def InputField.ofTree? (t : Tree) : Option InputField := do
  some {
    name := ← textAt t "name" 0
    isRequired := flagAt t "isRequired" 1
    accepts := ← (← itemsAt? t "inputTypes" 2).mapM TypeRef.ofTree? }

def InputType.ofTree? (t : Tree) : Option InputType := do
  some { name := ← textAt t "name" 0, fields := ← (← itemsAt? t "fields" 1).mapM InputField.ofTree? }

def Namespaces.ofTree? {α : Type} (read? : Tree → Option α) (t : Tree) : Option (Namespaces α) := do
  some {
    client := ← (itemsAt t "prisma" 0).mapM read?
    model := ← (itemsAt t "model" 1).mapM read? }

def Document.ofTree? (t : Tree) : Option Document := do
  let dataModel ← t.part? "datamodel" 0
  let client ← t.part? "schema" 1
  some {
    models := ← (← itemsAt? dataModel "models" 0).mapM Model.ofTree?
    declaredEnums := ← (itemsAt dataModel "enums" 1).mapM Enumeration.ofDeclared?
    inputTypes := ← (client.part? "inputObjectTypes" 0).bind (Namespaces.ofTree? InputType.ofTree?)
    builtinEnums :=
      ← (match client.part? "enumTypes" 1 with
        | none => some {}
        | some t => Namespaces.ofTree? Enumeration.ofBuiltin? t) }

def readShaped {α : Type} (shape : Check) (ofTree? : Tree → Option α) (text : String) :
    Except Defect α :=
  let (tree, rest) := Json.readTree text.toList
  match shape tree with
  | .error d => .error d
  | .ok () =>
    if (Json.skipSpace rest).isEmpty then
      match ofTree? tree with
      | some value => .ok value
      | none => .error .unfit
    else .error .malformed

/-- What is reported of a text that is no description, whatever is wrong with it. -/
def unreadableMessage : String := "failed to parse schema description"

def Document.read (text : String) : Except Defect Document :=
  readShaped documentShape Document.ofTree? text

end GraphqlCrud.Schema
