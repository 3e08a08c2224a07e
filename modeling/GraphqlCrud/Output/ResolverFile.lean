import GraphqlCrud.Path
import GraphqlCrud.Resolver.Shape
import GraphqlCrud.Script.SourceFile
import GraphqlCrud.Text.Basic
/-!
The file of a resolver: its arguments, the object that defines its field, and the field.
-/
namespace GraphqlCrud.Output.ResolverFile

open Script

def objectHelper (r : ResolverShape) : String :=
  "define" ++ r.rootType.name ++ if r.operation.isProjecting then "PrismaObject" else "Object"

def functionHelper (r : ResolverShape) : String := "define" ++ r.rootType.name ++ "Function"

def fieldHelper (r : ResolverShape) : String := "define" ++ r.rootType.name

def argumentCode (a : Argument) : String :=
  let type := match a.type with
    | .input name false => "Inputs." ++ name
    | .input name true => ArrayLiteral.inline { elements := [.code ("Inputs." ++ name)] }
    | .scalar name => doubleQuoted name
  "t.field(" ++ inlineObject [.code "type" type, .flag "required" a.isRequired] ++ ")"

def toObject (members : ObjectLiteral) : Arrow := { params := "t", body := .object members }

def argumentsConstant (r : ResolverShape) : Constant :=
  let fields : ObjectLiteral := r.arguments.map fun a => .code a.name (argumentCode a)
  { name := r.argumentsName, value := "builder.args(" ++ (toObject fields).written ++ ")" }

def answerType (r : ResolverShape) : String :=
  match r.answer with
  | .model => doubleQuoted r.model
  | .modelList => (ArrayLiteral.ofTexts [r.model]).inline
  | .int => doubleQuoted "Int"
  | .batchPayload => "BatchPayload"

def usesQuery : DatabaseCall → Bool
  | .call _ parameters spreadsQuery =>
    spreadsQuery || parameters.any fun (_, value) => Text.begins "query." value
  | .transactionCreate => true

/-- The parameters of the resolve function. One that is not used has an underscore before it. -/
def resolveParameters (r : ResolverShape) : String :=
  if !r.operation.isProjecting then "_root, args, context, _info"
  else if usesQuery r.body then "query, _root, args, context, _info"
  else "_query, _root, args, context, _info"

def databaseCode (r : ResolverShape) (caller : String) : String :=
  let delegate := r.delegate caller
  match r.body with
  | .call method parameters spreadsQuery =>
    let argument : ObjectLiteral :=
      parameters.map (fun (key, value) => .code key value) ++
        if spreadsQuery then [.spread "query"] else []
    "await " ++ delegate ++ "." ++ method ++ "(" ++ argument.multiline ++ ")"
  | .transactionCreate =>
    "await " ++ caller ++ ".$transaction(\n  args.data.map((data) => " ++ delegate ++ ".create(" ++
      inlineObject [.shorthand "data", .spread "query"] ++ ")),\n)"

def resolveFunction (r : ResolverShape) (caller : String) : Expr :=
  .arrow (resolveParameters r) true (.resultBelow (databaseCode r caller))

def objectConstant (r : ResolverShape) (caller : String) : Constant :=
  let options : ObjectLiteral := [
    .code "type" (answerType r),
    .flag "nullable" r.isNullable,
    .code "args" r.argumentsName,
    .property "resolve" (resolveFunction r caller)]
  let definer : Arrow :=
    { params := "t", body := .resultBelow (objectHelper r ++ "(" ++ options.multiline ++ ")") }
  { name := r.objectName, value := functionHelper r ++ "(" ++ definer.written ++ ")" }

def fieldConstant (r : ResolverShape) : Constant :=
  let wrapper := if r.operation.isProjecting then "prismaField" else "field"
  let fields : ObjectLiteral :=
    [.code r.fieldName ("t." ++ wrapper ++ "(" ++ r.objectName ++ "(t))")]
  { name := r.exportName, value := fieldHelper r ++ "(" ++ (toObject fields).written ++ ")" }

/-- The name of the file, without the ending of all generated files. -/
def stem (o : Operation) : String := o.name ++ ".base"

def path (base : String) (r : ResolverShape) : String :=
  Path.join (Path.join (Path.join base r.model) r.rootType.directory) (stem r.operation ++ ".ts")

def file (config : Config) (r : ResolverShape) : SourceFile :=
  { imports :=
      (ImportLine.ofText? config.crud.inputsImport).toList ++ [
        .statement { source := config.global.builderPath, names := ["builder"] },
        .statement {
          source := "../../utils", names := [fieldHelper r, functionHelper r, objectHelper r] }] ++
        (if r.answer = .batchPayload then
          [.statement { source := "../../objects", names := ["BatchPayload"] }]
        else []) ++
        (ImportLine.ofText? config.crud.resolverImports).toList
    declarations := [
      .constant (argumentsConstant r),
      .constant (objectConstant r config.crud.prismaCaller),
      .constant (fieldConstant r)] }

end GraphqlCrud.Output.ResolverFile
