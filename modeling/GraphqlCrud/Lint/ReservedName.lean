import GraphqlCrud.Lint.Basic
/-!
Model names that mean something else where generated code binds them.
-/
namespace GraphqlCrud.Lint

inductive Meaning where
  | languageGlobal
  | generatedBinding
  | keyword
deriving Repr, DecidableEq

/-- Globals of the language that generated code refers to. -/
def languageGlobals : List String := [
  "Object", "Array", "String", "Number", "Boolean", "Date", "Promise", "Map", "Set", "Symbol",
  "Error", "JSON", "BigInt"]

/-- Names that the registration file binds besides those of the models. -/
def generatedBindings : List String := [
  "Objects", "Model", "builder", "Inputs", "CrudOptions", "CrudDescriptor", "CrudTable",
  "ResolverType", "OperationMap", "FieldDefiner"]

def keywords : List String := [
  "break", "case", "catch", "class", "const", "continue", "debugger", "default", "delete", "do",
  "else", "enum", "export", "extends", "false", "finally", "for", "function", "if", "import",
  "in", "instanceof", "new", "null", "return", "super", "switch", "this", "throw", "true", "try",
  "typeof", "var", "void", "while", "with"]

def meaning? (name : String) : Option Meaning :=
  if languageGlobals.contains name then some .languageGlobal
  else if generatedBindings.contains name then some .generatedBinding
  else if keywords.contains name then some .keyword
  else none

def Meaning.message (name : String) : Meaning → String
  | .languageGlobal =>
    "model '" ++ name ++ "' shadows the JavaScript global '" ++ name ++ "' in generated code"
  | .generatedBinding =>
    "model '" ++ name ++ "' collides with '" ++ name ++ "' declared in generated autocrud.ts"
  | .keyword => "model '" ++ name ++ "' is a TypeScript reserved word"

def reservedFinding? (name : String) : Option Finding :=
  (meaning? name).map fun meaning =>
    { severity := .warning, phase, message := meaning.message name
      location := some (modelPlace name) }

def reservedName : Lint where
  name := "reserved-model-name"
  description :=
    "Warn about model names that shadow JavaScript globals, generated bindings " ++
      "or TypeScript keywords"
  check document _ := document.models.filterMap fun m => reservedFinding? m.name

end GraphqlCrud.Lint
