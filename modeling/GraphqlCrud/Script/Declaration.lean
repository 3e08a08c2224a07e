import GraphqlCrud.Script.Expression
/-!
Statements at the top level of a generated file: constants, functions, imports and re-exports.
-/
namespace GraphqlCrud.Script

def exportMark (isExported : Bool) : String := if isExported then "export " else ""

/-- A constant. Its value is code that may span lines, each with its own indentation. -/
structure Constant where
  name : String
  value : String
  type : Option String := none
  isExported : Bool := true
deriving Repr, DecidableEq

namespace Constant

def head (c : Constant) : String :=
  exportMark c.isExported ++ "const " ++ c.name ++
    ((c.type.map fun t => ": " ++ t).getD "") ++ " = "

def blocks (c : Constant) : List Block := codeBetween c.head c.value ";"

end Constant

structure Parameter where
  name : String
  type : Option String := none
  isOptional : Bool := false
  default : Option String := none
deriving Repr, DecidableEq

def Parameter.written (p : Parameter) : String :=
  p.name ++ (if p.isOptional then "?" else "") ++
    ((p.type.map fun t => ": " ++ t).getD "") ++ ((p.default.map fun d => " = " ++ d).getD "")

structure FunctionDef where
  name : String
  remark : Option String := none
  isExported : Bool := true
  parameters : List Parameter := []
  returns : Option String := none
  body : List String := []
deriving Repr, DecidableEq

namespace FunctionDef

def signature (f : FunctionDef) : String :=
  exportMark f.isExported ++ "function " ++ f.name ++
    "(" ++ ", ".intercalate (f.parameters.map Parameter.written) ++ ")" ++
    ((f.returns.map fun t => ": " ++ t).getD "") ++ " \x7b"

def blocks (f : FunctionDef) : List Block :=
  (f.remark.map Block.remark).toList ++ [.group f.signature (f.body.map .line) (some "\x7d")]

end FunctionDef

def typeMark (isTypeOnly : Bool) : String := if isTypeOnly then "type " else ""

def bracedNames (names : List String) : String := "\x7b " ++ ", ".intercalate names ++ " \x7d"

/-- An import. A namespace import leaves named ones aside. -/
structure Import where
  source : String
  namespaceName : Option String := none
  names : List String := []
  isTypeOnly : Bool := false
deriving Repr, DecidableEq

def Import.statement (i : Import) : String :=
  let source := singleQuoted i.source
  match i.namespaceName, i.names with
  | some name, _ => "import " ++ typeMark i.isTypeOnly ++ "* as " ++ name ++ " from " ++ source ++ ";"
  | none, [] => "import " ++ source ++ ";"
  | none, names =>
    "import " ++ typeMark i.isTypeOnly ++ bracedNames names ++ " from " ++ source ++ ";"

/-- An export of names, or of everything another file exports. -/
structure Export where
  source : Option String := none
  names : List String := []
  isTypeOnly : Bool := false
deriving Repr, DecidableEq

namespace Export

/-- The statement; there is none without a source and without names. -/
def statement? (e : Export) : Option String :=
  match e.source, e.names with
  | some source, [] => some ("export * from " ++ singleQuoted source ++ ";")
  | some source, names =>
    some ("export " ++ typeMark e.isTypeOnly ++ bracedNames names ++ " from " ++
      singleQuoted source ++ ";")
  | none, [] => none
  | none, names => some ("export " ++ typeMark e.isTypeOnly ++ bracedNames names ++ ";")

def blocks (e : Export) : List Block := (e.statement?.map Block.line).toList

end Export
end GraphqlCrud.Script
