import GraphqlCrud.DocComment
import GraphqlCrud.Path
import GraphqlCrud.Schema.Basic
import GraphqlCrud.Script.SourceFile
/-!
The file that defines the object type of a model: one entry for every field that is not left out.
-/
namespace GraphqlCrud.Output.ModelObject

open Script Schema

/-- The type under which a field that is no relation is exposed. -/
def exposedType (config : CrudConfig) (f : Field) : String :=
  if f.isId && config.mapsIds then "ID" else f.type

def options (config : CrudConfig) (f : Field) (description : Option String) : ObjectLiteral :=
  let described : ObjectLiteral := description.toList.map (.template "description")
  let nullable := Member.flag "nullable" (!f.isRequired)
  if f.isRelation then described ++ [nullable]
  else
    let type := exposedType config f
    let typed : Member :=
      if f.isList then .property "type" (.array (.ofTexts [type])) else .text "type" type
    described ++ [typed, nullable]

/-- The entry of a field; a field that is left out has none. -/
def entryOf? (config : CrudConfig) (f : Field) : Option String :=
  let comment := DocComment.parse f.documentation
  if comment.omission.omitsObject then none
  else
    let method := if f.isRelation then "relation" else "expose"
    some (f.name ++ ": t." ++ method ++ "(\"" ++ f.name ++ "\", " ++
      (options config f comment.description).inline ++ "),")

def fieldsCode (config : CrudConfig) (m : Model) : String :=
  match m.fields.filterMap (entryOf? config) with
  | [] => "(\x7b\x7d)"
  | entries => "(\x7b\n" ++ "\n".intercalate (entries.map ("  " ++ ·)) ++ "\n\x7d)"

def definition (config : CrudConfig) (m : Model) : Constant :=
  let description := (DocComment.parse m.documentation).description
  let options : ObjectLiteral :=
    description.toList.map (.template "description") ++
      [.property "fields" (.arrow "t" false (.result (fieldsCode config m)))]
  { name := m.name ++ "Object"
    value := "definePrismaObject(" ++ singleQuoted m.name ++ ", " ++ options.multiline ++ ")" }

def path (base model : String) : String := Path.join (Path.join base model) "object.base.ts"

def file (config : CrudConfig) (m : Model) : SourceFile :=
  { imports := [.statement { source := "../utils", names := ["definePrismaObject"] }]
    declarations := [.constant (definition config m)] }

end GraphqlCrud.Output.ModelObject
