import GraphqlCrud.Config.Basic
import GraphqlCrud.Plan
import GraphqlCrud.Script.SourceFile
/-!
The file that registers generated objects and resolvers with the schema builder when the program
starts. It lists a descriptor for every model, and its entry points go through that list.
-/
namespace GraphqlCrud.Output.Registration

open Script

def types : String := "type Model = Objects.Model;
type ResolverType = 'Query' | 'Mutation';
type OperationMap = Partial<Record<Model | '$all', string[]>>;
type FieldDefiner = (t: any) => any;

export type CrudOptions = \x7b
  include?: Model[];
  exclude?: Model[];
  includeOperation?: OperationMap;
  excludeOperation?: OperationMap;
  /**
   * Caution: this is not type safe.
   * Rewrites a resolver's field options right before it is registered
   * (override args, wrap resolve, apply plugins).
   */
  handleResolver?: (props: \x7b
    modelName: Model;
    field: any;
    operationName: string;
    resolverName: string;
    t: any;
    isPrismaField: boolean;
    type: ResolverType;
  \x7d) => any;
\x7d;

export type CrudDescriptor = \x7b
  modelName: Model;
  object: any;
  queries: Record<string, FieldDefiner>;
  mutations: Record<string, FieldDefiner>;
\x7d;

export type CrudTable = Map<Model, CrudDescriptor>;"

/-- Which models and operations the caller of an entry point asked for. -/
def filters : String := "const includeModel = (modelName: Model, opts?: CrudOptions): boolean => \x7b
  if (opts?.include) return opts.include.includes(modelName);
  if (opts?.exclude) return !opts.exclude.includes(modelName);
  return true;
\x7d;

const listedOperations = (modelName: Model, map: OperationMap): string[] => [
  ...(map.$all ?? []),
  ...(map[modelName] ?? []),
];

const includeOperation = (modelName: Model, operationName: string, opts?: CrudOptions): boolean => \x7b
  if (opts?.includeOperation) return listedOperations(modelName, opts.includeOperation).includes(operationName);
  if (opts?.excludeOperation) return !listedOperations(modelName, opts.excludeOperation).includes(operationName);
  return true;
\x7d;"

def registerResolvers : String := "function generateResolversByType(type: ResolverType, opts: CrudOptions | undefined, table: CrudTable) \x7b
  for (const [modelName, descriptor] of table) \x7b
    if (!includeModel(modelName, opts)) continue;
    const resolvers = type === 'Query' ? descriptor.queries : descriptor.mutations;

    for (const [operationName, defineField] of Object.entries(resolvers)) \x7b
      if (!includeOperation(modelName, operationName, opts)) continue;
      const resolverName = operationName + modelName;
      const isPrismaField = !batchOperations.includes(operationName);

      const getFields = (t: any) => \x7b
        const field = defineField(t);
        const handledField = opts?.handleResolver
          ? opts.handleResolver(\x7b field, modelName, operationName, resolverName, t, isPrismaField, type \x7d)
          : field;
        return \x7b
          [resolverName]: isPrismaField ? t.prismaField(handledField) : t.field(handledField),
        \x7d;
      \x7d;

      if (type === 'Query') builder.queryFields(getFields);
      else builder.mutationFields(getFields);
    \x7d
  \x7d
\x7d"

/-- The fields that a model's descriptor lists for a root type: the name of each operation, and the
exported object that defines its field. -/
def descriptorFields (m : ModelOperations) (t : RootType) : List (Operation × String) :=
  (m.ofType t).map fun o => (o, o.resolverName m.model ++ t.name ++ "Object")

def resolverMap (m : ModelOperations) (t : RootType) : ObjectLiteral :=
  (descriptorFields m t).map fun (o, symbol) => .code o.name (m.model ++ "." ++ symbol)

def descriptor (m : ModelOperations) : ObjectLiteral := [
  .code "modelName" (singleQuoted m.model),
  .code "object" (m.model ++ "." ++ m.model ++ "Object"),
  .property "queries" (.object (resolverMap m .query)),
  .property "mutations" (.object (resolverMap m .mutation))]

/-- The lines of a text, each that is not empty one level further in. -/
def indentLines (text : String) : String :=
  "\n".intercalate ((Text.lines text).map fun line => if line = "" then "" else "  " ++ line)

def descriptors (plan : Plan) : Constant :=
  { name := "crudDescriptors", type := some "CrudDescriptor[]"
    value :=
      if plan.models.isEmpty then "[]"
      else
        "[\n" ++
          "\n".intercalate (plan.models.map fun m => indentLines ((descriptor m).multiline ++ ",")) ++
          "\n]" }

def createTable : FunctionDef :=
  { name := "createCrudTable"
    parameters := [{ name := "descriptors", default := some "crudDescriptors" }]
    returns := some "CrudTable"
    body := [
      "return new Map(descriptors.map((descriptor) => [descriptor.modelName, descriptor]));"] }

def batchOperations : Constant :=
  { name := "batchOperations", type := some "string[]", isExported := false
    value := (ArrayLiteral.ofTexts ((Operation.all.filter (·.isBatch)).map (·.name))).inline }

/-- An entry point: a function of the caller's options and the table of descriptors. -/
def entryPoint (name : String) (body : List String) : FunctionDef :=
  { name, body
    parameters := [
      { name := "opts", type := some "CrudOptions", isOptional := true },
      { name := "table", default := some "createCrudTable()" }] }

def entryPoints : List FunctionDef := [
  entryPoint "generateAllObjects" [
    "for (const [modelName, descriptor] of table) \x7b",
    "  if (includeModel(modelName, opts)) builder.prismaObject(modelName, descriptor.object);",
    "\x7d"],
  entryPoint "generateAllQueries" ["generateResolversByType('Query', opts, table);"],
  entryPoint "generateAllMutations" ["generateResolversByType('Mutation', opts, table);"],
  entryPoint "generateAllResolvers" [
    "generateResolversByType('Query', opts, table);",
    "generateResolversByType('Mutation', opts, table);"],
  entryPoint "generateAllCrud" [
    "generateAllObjects(opts, table);",
    "generateAllResolvers(opts, table);"]]

def path : String := "autocrud.ts"

def modelImport (model : String) : Import :=
  { source := "./" ++ model, namespaceName := some model }

def file (plan : Plan) (config : Config) : SourceFile :=
  { imports :=
      plan.models.map (fun m => .statement (modelImport m.model)) ++ [
        .statement { source := config.global.builderPath, names := ["builder"] },
        .statement { source := "./objects", namespaceName := some "Objects" }]
    declarations :=
      [.code types, .constant (descriptors plan), .function createTable,
        .constant batchOperations, .code filters, .code registerResolvers] ++
        entryPoints.map .function }

end GraphqlCrud.Output.Registration
