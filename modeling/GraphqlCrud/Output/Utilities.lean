import GraphqlCrud.Operation
import GraphqlCrud.Script.SourceFile
/-!
The file of type helpers that generated objects and resolvers are written against.
-/
namespace GraphqlCrud.Output.Utilities

open Script

def coreImports : List String := [
  "FieldKind", "FieldOptionsFromKind", "InputFieldMap", "InterfaceParam", "ObjectRef", "TypeParam"]

def prismaImports : List String := [
  "PrismaFieldOptions", "PrismaModelTypes", "PrismaObjectTypeOptions", "RelatedFieldOptions"]

def builderTypes : String :=
  "type Types = typeof builder extends PothosSchemaTypes.SchemaBuilder<infer T> ? T : unknown;"

def objectHelpers : String := "export const defineFieldObject = <
  Name extends keyof Types['PrismaTypes'],
  Type extends TypeParam<Types>,
  Nullable extends boolean,
  Args extends InputFieldMap,
>(
  _: Name,
  obj: FieldOptionsFromKind<
    Types,
    Types['PrismaTypes'][Name]['Shape'],
    Type,
    Nullable,
    Args,
    'Object',
    unknown,
    unknown
  >,
) => obj as \x7b type: Type; nullable: Nullable; description?: string; resolve: (typeof obj)['resolve'] \x7d;

export const defineRelationObject = <
  ModelName extends keyof Types['PrismaTypes'],
  RelationName extends keyof Types['PrismaTypes'][ModelName]['Relations'],
  Nullable extends boolean,
  Args extends InputFieldMap,
>(
  _: ModelName,
  __: RelationName,
  obj: RelatedFieldOptions<
    Types,
    Types['PrismaTypes'][ModelName],
    RelationName,
    Nullable,
    Args,
    unknown,
    Types['PrismaTypes'][ModelName]['Shape']
  >,
) =>
  obj as \x7b
    description: string | undefined;
    nullable: Nullable;
    args: Args;
    query: (typeof obj)['query'];
  \x7d;

export const defineRelationFunction = <ModelName extends keyof Types['PrismaTypes'], O>(
  _: ModelName,
  func: (
    t: PothosSchemaTypes.PrismaObjectFieldBuilder<
      Types,
      Types['PrismaTypes'][ModelName],
      Types['PrismaTypes'][ModelName]['Shape']
    >,
  ) => O,
) => func;

export const definePrismaObject = <
  Name extends keyof Types['PrismaTypes'],
  Obj extends PrismaObjectTypeOptions<
    Types,
    Types['PrismaTypes'][Name],
    InterfaceParam<Types>[],
    unknown,
    unknown,
    Types['PrismaTypes'][Name]['Shape']
  >,
>(
  _: Name,
  obj: Obj,
) => obj;"

def operationTypes : String := "type PrismaModels = keyof Types['PrismaTypes'] | [keyof Types['PrismaTypes']];

type GeneralObject<OperationKind extends FieldKind> = FieldOptionsFromKind<
  Types,
  Types['Root'],
  TypeParam<Types>,
  boolean,
  InputFieldMap,
  OperationKind,
  Types,
  unknown
>;

type GeneralPrismaObject<OperationKind extends FieldKind> = \x7b
  type: PrismaModels;
  nullable: boolean;
  args: InputFieldMap;
  resolve: PrismaFieldOptions<
    Types,
    Types['Root'],
    PrismaModels,
    PrismaModelTypes,
    PrismaModels extends [unknown]
      ? [ObjectRef<Types, PrismaModelTypes['Shape']>]
      : ObjectRef<Types, PrismaModelTypes['Shape']>,
    InputFieldMap,
    boolean,
    unknown,
    unknown,
    OperationKind
  >['resolve'];
\x7d;"

def operationHelpers (t : RootType) : String :=
  let kind := t.name
  s!"export type {kind}Object = GeneralObject<'{kind}'>;
export type {kind}PrismaObject = GeneralPrismaObject<'{kind}'>;

type {kind}FieldBuilder = PothosSchemaTypes.{kind}FieldBuilder<Types, Types['Root']>;

export const define{kind} = <T extends Record<string, unknown>>(func: (t: {kind}FieldBuilder) => T) => func;

export const define{kind}Function = <T>(func: (t: {kind}FieldBuilder) => T) => func;

export const define{kind}Object = <T extends {kind}Object>(obj: T) => obj;

export const define{kind}PrismaObject = <T extends {kind}PrismaObject>(obj: T) => obj;"

def path : String := "utils.ts"

def file (builderPath : String) : SourceFile :=
  { imports := [
      .statement { source := "@pothos/core", names := coreImports },
      .statement { source := "@pothos/plugin-prisma", names := prismaImports },
      .statement { source := builderPath, names := ["builder"] }]
    declarations :=
      .code builderTypes :: .code objectHelpers :: .code operationTypes ::
        RootType.all.map fun t => .code (operationHelpers t) }

end GraphqlCrud.Output.Utilities
