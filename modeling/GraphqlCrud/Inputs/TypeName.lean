import GraphqlCrud.Text.Basic
/-!
Names of types in input declarations.
-/
namespace GraphqlCrud.Inputs

def shorthand? : String → Option String
  | "String" => some "string"
  | "Int" => some "int"
  | "Float" => some "float"
  | "Boolean" => some "boolean"
  | _ => none

def isBuiltin (name : String) : Bool := (shorthand? name).isSome

/-- The name without the marker of inputs that set foreign keys directly. -/
def checkedName (name : String) : String := Text.without "Unchecked" name

/-- The name of the declaration for a type. A type named like a global of the language gets a name
of its own. -/
def declaredName (name : String) : String :=
  if name = "BigInt" then "Bigint" else checkedName name

end GraphqlCrud.Inputs
