import GraphqlCrud.Inputs.Catalog
import GraphqlCrud.Script.SourceFile
/-!
The file of scalars, enums and input types that the arguments of resolvers refer to.
-/
namespace GraphqlCrud.Output.InputTypes

open Script Schema Inputs

/-- Types that narrow the update operations of the client to what the declarations accept. -/
def helperTypes : String := "type Filters = \x7b
  string: Prisma.StringFieldUpdateOperationsInput;
  nullableString: Prisma.NullableStringFieldUpdateOperationsInput;
  dateTime: Prisma.DateTimeFieldUpdateOperationsInput;
  nullableDateTime: Prisma.NullableDateTimeFieldUpdateOperationsInput;
  int: Prisma.IntFieldUpdateOperationsInput;
  nullableInt: Prisma.NullableIntFieldUpdateOperationsInput;
  bool: Prisma.BoolFieldUpdateOperationsInput;
  nullableBool: Prisma.NullableBoolFieldUpdateOperationsInput;
  bigInt: Prisma.BigIntFieldUpdateOperationsInput;
  nullableBigInt: Prisma.NullableBigIntFieldUpdateOperationsInput;
  bytes: Prisma.BytesFieldUpdateOperationsInput;
  nullableBytes: Prisma.NullableBytesFieldUpdateOperationsInput;
  float: Prisma.FloatFieldUpdateOperationsInput;
  nullableFloat: Prisma.NullableFloatFieldUpdateOperationsInput;
  decimal: Prisma.DecimalFieldUpdateOperationsInput;
  nullableDecimal: Prisma.NullableDecimalFieldUpdateOperationsInput;
\x7d;

type ApplyFilters<InputField> = \x7b
  [F in keyof Filters]: 0 extends 1 & Filters[F]
    ? never
    : Filters[F] extends InputField
      ? Filters[F]
      : never;
\x7d[keyof Filters];

type PrismaUpdateOperationsInputFilter<T extends object> = \x7b
  [K in keyof T]: [ApplyFilters<T[K]>] extends [never] ? T[K] : ApplyFilters<T[K]>;
\x7d;"

/-- The declaration of a scalar: the name it is exported under, its name in the schema, and how its
values are read and written. -/
structure ScalarDeclaration where
  exportName : String
  schemaName : String
  description : Option String := none
  parse : Option String
  serialize : String
deriving Repr, DecidableEq

def ScalarDeclaration.ofScalar : SpecialScalar → ScalarDeclaration
  | .dateTime =>
    { exportName := "DateTime", schemaName := "DateTime"
      parse := some "new Date(value as string)"
      serialize := "(value instanceof Date ? value.toISOString() : value)" }
  | .decimal =>
    { exportName := "Decimal", schemaName := "Decimal"
      parse := some "new Prisma.Decimal(value as string)"
      serialize := "value.toString()" }
  | .bytes =>
    { exportName := "Bytes", schemaName := "Bytes"
      parse := some "Buffer.from((value as \x7b data: number[] \x7d).data)"
      serialize := "(\x7b type: 'Buffer' as const, data: [...value] \x7d)" }
  | .json =>
    { exportName := "Json", schemaName := "Json"
      parse := some "value"
      serialize := "value" }
  | .bigInt =>
    { exportName := "Bigint", schemaName := "BigInt"
      parse := some "BigInt(value as string)"
      serialize := "value.toString()" }

/-- The name of the scalar that stands in for the fields of an input that has none. -/
def placeholder : String := "NEVER"

def ScalarDeclaration.placeholder : ScalarDeclaration :=
  { exportName := InputTypes.placeholder, schemaName := InputTypes.placeholder
    description := some "Never fill this, it only exists for inputs without fields"
    parse := none
    serialize := "value" }

def arrowTo (parameter code : String) : Expr := Arrow.expr { params := parameter, body := .result code }

def ScalarDeclaration.constant (d : ScalarDeclaration) : Constant :=
  let options : ObjectLiteral :=
    d.description.toList.map (.text "description") ++
      d.parse.toList.map (fun code => .property "parseValue" (arrowTo "value" code)) ++
      [.property "serialize" (arrowTo "value" d.serialize)]
  { name := d.exportName
    value := "builder.scalarType(" ++ singleQuoted d.schemaName ++ ", " ++ options.multiline ++ ")" }

/-- The scalars to declare: those that inputs accept somewhere, then the placeholder if an input
needs it; all but those that the configuration excludes. -/
def scalars (document : Document) (config : Config) (needsPlaceholder : Bool) :
    List ScalarDeclaration :=
  let special := (SpecialScalar.usedIn document.inputs).filter fun s =>
    !config.inputs.excludesScalar s.name
  special.map .ofScalar ++
    if needsPlaceholder && !config.inputs.excludesScalar placeholder then [.placeholder] else []

def enumConstant (e : Enumeration) : Constant :=
  let options : ObjectLiteral :=
    [.property "values" (.array { ArrayLiteral.ofTexts e.values with isConst := true })]
  { name := e.name
    value := "builder.enumType(" ++ singleQuoted e.name ++ ", " ++ options.multiline ++ ")" }

def fieldLine (f : FieldDeclaration) : String :=
  let key := propertyKey f.name
  let required := Member.flag "required" f.isRequired
  match f.type with
  | .shorthand method => key ++ ": t." ++ method ++ "(" ++ inlineObject [required] ++ "),"
  | .named type isList =>
    let type := if isList then ArrayLiteral.inline { elements := [.code type] } else type
    key ++ ": t.field(" ++ inlineObject [required, .code "type" type] ++ "),"

def inputLines (d : InputDeclaration) : List String :=
  if d.isEmpty then ["_: t.field(\x7b type: " ++ placeholder ++ " \x7d),"]
  else d.fields.map fieldLine

def inputConstant (d : InputDeclaration) : Constant :=
  let fields := "(\x7b\n" ++ "\n".intercalate ((inputLines d).map ("  " ++ ·)) ++ "\n\x7d)"
  let options : ObjectLiteral := [.property "fields" (arrowTo "t" fields)]
  let chain : CallChain :=
    { receiver := "builder"
      calls := [
        { method := "inputRef"
          typeArguments :=
            some ("PrismaUpdateOperationsInputFilter<Prisma." ++ d.clientName ++ ">, false")
          arguments := [singleQuoted d.name] },
        { method := "implement", arguments := [options.multiline] }] }
  { name := d.name, value := chain.inline }

def path : String := "inputs.ts"

def file (document : Document) (config : Config) : SourceFile :=
  let inputs := select document config
  let needsPlaceholder := inputs.any (·.isEmpty)
  { imports :=
      (ImportLine.ofText? config.inputs.prismaImport).toList ++
        [.statement { source := config.global.builderPath, names := ["builder"] }]
    declarations :=
      .code helperTypes ::
        ((scalars document config needsPlaceholder).map (fun s => .constant s.constant) ++
          document.enums.map (fun e => .constant (enumConstant e)) ++
          inputs.map (fun d => .constant (inputConstant d))) }

end GraphqlCrud.Output.InputTypes
