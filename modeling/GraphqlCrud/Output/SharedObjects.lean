import GraphqlCrud.Config.Basic
import GraphqlCrud.Script.SourceFile
/-!
The file of what all models share: the object that batch operations answer with, and the list of
the models' names.
-/
namespace GraphqlCrud.Output.SharedObjects

open Script

/-- The object that tells how many records a batch operation touched. -/
def batchPayload : Constant :=
  let count : ObjectLiteral := [
    .text "description" "Prisma Batch Payload",
    .flag "nullable" false]
  let fields : ObjectLiteral :=
    [.code "count" ("t.exposeInt(\"count\", " ++ count.inline ++ ")")]
  let options : ObjectLiteral := [
    .text "description" "Batch payloads from prisma.",
    .property "fields" (.arrow "t" false (.object fields))]
  let reference : CallChain :=
    { receiver := "builder"
      calls := [
        { method := "objectRef", typeArguments := some "Prisma.BatchPayload"
          arguments := [singleQuoted "BatchPayload"] }] }
  let definition : CallChain :=
    { receiver := "builder"
      calls := [{ method := "objectType", arguments := [reference.inline, options.multiline] }] }
  { name := "BatchPayload", value := definition.inline }

def modelNames (names : List String) : Constant :=
  { name := "modelNames"
    value := ArrayLiteral.multiline { ArrayLiteral.ofTexts names with isConst := true } }

def path : String := "objects.ts"

def file (names : List String) (config : Config) : SourceFile :=
  { imports :=
      (ImportLine.ofText? config.crud.prismaImport).toList ++
        [.statement { source := config.global.builderPath, names := ["builder"] }]
    declarations := [
      .constant batchPayload,
      .constant (modelNames names),
      .code "export type Model = (typeof modelNames)[number];"] }

end GraphqlCrud.Output.SharedObjects
