import GraphqlCrud.Layout
import GraphqlCrud.Script.Literal
import GraphqlCrud.Text.Basic
import GraphqlCrud.Text.Blank
/-!
Expressions of the generated language, with two printed forms: on one line, and with one member of
an object per line. Code given as text is spliced in, so it may span lines; its continuation lines
keep their own indentation and gain that of the place where they stand.
-/
namespace GraphqlCrud.Script

/-- An element of an array: a string to be quoted, or code. -/
inductive Element where
  | text (value : String)
  | code (value : String)
deriving Repr, DecidableEq

def Element.written : Element → String
  | .text value => doubleQuoted value
  | .code value => value

structure ArrayLiteral where
  elements : List Element
  /-- Whether the literal is marked as constant, so that its type is the literal's own. -/
  isConst : Bool := false
deriving Repr, DecidableEq

namespace ArrayLiteral

def ofTexts (values : List String) : ArrayLiteral := { elements := values.map .text }

def constMark (a : ArrayLiteral) : String := if a.isConst then " as const" else ""

def inline (a : ArrayLiteral) : String :=
  "[" ++ ", ".intercalate (a.elements.map Element.written) ++ "]" ++ a.constMark

def multiline (a : ArrayLiteral) : String :=
  if a.elements = [] then "[]" ++ a.constMark
  else
    "[\n" ++ String.join (a.elements.map fun e => "  " ++ e.written ++ ",\n") ++ "]" ++ a.constMark

end ArrayLiteral

mutual
inductive Expr where
  | text (value : String)
  | template (value : String)
  | code (value : String)
  | array (value : ArrayLiteral)
  | object (members : List Member)
  | arrow (params : String) (isAsync : Bool) (body : ArrowBody)

/-- What an arrow function does: run statements, give an expression beside or below the arrow, or
give an object. -/
inductive ArrowBody where
  | statements (lines : List String)
  | result (code : String)
  | resultBelow (code : String)
  | object (members : List Member)

inductive Member where
  | property (key : String) (value : Expr)
  | spread (code : String)
end

/-- Whether a member is written as a bare name: its value is the code that its key spells. -/
def isShorthand (key : String) : Expr → Bool
  | .code value => value == key && Text.isIdentifier key
  | _ => false

/-- The lines of code that may span lines, with `head` before the first and `tail` after the last.
White space at the end of the code is dropped. -/
def codeBetween (head code tail : String) : List Block :=
  match Text.lines (Text.trimEnd code) with
  | [] => [.line (head ++ tail)]
  | [only] => [.line (head ++ only ++ tail)]
  | first :: rest =>
    .line (head ++ first) ::
      (rest.dropLast.map .line ++ (rest.getLast?.map fun last => .line (last ++ tail)).toList)

/-- The lines of `key: code,` where the code may span lines. -/
def propertyLines (key code : String) : List Block := codeBetween (key ++ ": ") code ","

def arrowHead (params : String) (isAsync : Bool) : String :=
  (if isAsync then "async " else "") ++ "(" ++ params ++ ") =>"

def objectBlocks (members : List Block) : List Block :=
  match members with
  | [] => [.line "\x7b\x7d"]
  | _ => [.group "\x7b" members (some "\x7d")]

mutual
/-- The expression without line breaks of its own. Arrow functions keep theirs. -/
def Expr.inline : Expr → String
  | .text value => doubleQuoted value
  | .template value => templateLiteral value
  | .code value => value
  | .array value => value.inline
  | .object members => inlineObject members
  | .arrow params isAsync body => body.written (arrowHead params isAsync)

def inlineObject : List Member → String
  | [] => "\x7b\x7d"
  | m :: rest => "\x7b " ++ ", ".intercalate (m.inline :: inlineMembers rest) ++ " \x7d"

def inlineMembers : List Member → List String
  | [] => []
  | m :: rest => m.inline :: inlineMembers rest

def Member.inline : Member → String
  | .property key value =>
    if isShorthand key value then key else propertyKey key ++ ": " ++ value.inline
  | .spread code => "..." ++ code

def ArrowBody.written (head : String) : ArrowBody → String
  | .result code => head ++ " " ++ code
  | .resultBelow code =>
    Text.dropFinalLineFeeds
      (Layout.render [.group head (Layout.linesOf code) none])
  | .object [] => head ++ " (\x7b\x7d)"
  | .object (m :: rest) =>
    head ++ " (" ++
      Text.dropFinalLineFeeds (Layout.render (objectBlocks (m.blocks ++ memberBlocks rest))) ++ ")"
  | .statements [] => head ++ " \x7b\x7d"
  | .statements (s :: rest) =>
    Text.dropFinalLineFeeds
      (Layout.render [.group (head ++ " \x7b") ((s :: rest).map .line) (some "\x7d")])

def memberBlocks : List Member → List Block
  | [] => []
  | m :: rest => m.blocks ++ memberBlocks rest

def Member.blocks : Member → List Block
  | .spread code => [.line ("..." ++ code ++ ",")]
  | .property key value =>
    if isShorthand key value then [.line (key ++ ",")] else value.blocks (propertyKey key)

def Expr.blocks (key : String) : Expr → List Block
  | .object [] => [.line (key ++ ": \x7b\x7d,")]
  | .object (m :: rest) =>
    [.group (key ++ ": \x7b") (m.blocks ++ memberBlocks rest) (some "\x7d,")]
  | .arrow params isAsync body => propertyLines key (body.written (arrowHead params isAsync))
  | .code value => propertyLines key value
  | .text value => [.line (key ++ ": " ++ doubleQuoted value ++ ",")]
  | .template value => [.line (key ++ ": " ++ templateLiteral value ++ ",")]
  | .array value => [.line (key ++ ": " ++ value.inline ++ ",")]
end

abbrev ObjectLiteral := List Member

namespace ObjectLiteral

def blocks (o : ObjectLiteral) : List Block := objectBlocks (memberBlocks o)

def inline (o : ObjectLiteral) : String := inlineObject o

/-- The literal across several lines, one member per line. -/
def multiline (o : ObjectLiteral) : String := Text.dropFinalLineFeeds (Layout.render (blocks o))

end ObjectLiteral

structure Arrow where
  params : String
  isAsync : Bool := false
  body : ArrowBody := .statements []

instance : Inhabited Arrow := ⟨{ params := "" }⟩

namespace Arrow

def expr (f : Arrow) : Expr := .arrow f.params f.isAsync f.body

def written (f : Arrow) : String := f.body.written (arrowHead f.params f.isAsync)

/-- Adds a statement; a body that was not made of statements is given up. -/
def withStatement (f : Arrow) (line : String) : Arrow :=
  match f.body with
  | .statements lines => { f with body := .statements (lines ++ [line]) }
  | _ => { f with body := .statements [line] }

end Arrow

namespace Member

def text (key value : String) : Member := .property key (.text value)

def template (key value : String) : Member := .property key (.template value)

def code (key value : String) : Member := .property key (.code value)

def flag (key : String) (value : Bool) : Member :=
  .property key (.code (if value then "true" else "false"))

def shorthand (name : String) : Member := .property name (.code name)

end Member

/-- A method call: its name, its type arguments if it has any, and its arguments. -/
structure MethodCall where
  method : String
  typeArguments : Option String := none
  arguments : List String
deriving Repr, DecidableEq

def MethodCall.written (c : MethodCall) : String :=
  c.method ++ ((c.typeArguments.map fun t => "<" ++ t ++ ">").getD "") ++
    "(" ++ ", ".intercalate c.arguments ++ ")"

structure CallChain where
  receiver : String
  calls : List MethodCall
deriving Repr, DecidableEq

namespace CallChain

def inline (c : CallChain) : String :=
  c.receiver ++ String.join (c.calls.map fun call => "." ++ call.written)

/-- Every call after the first on a line of its own. -/
def multiline (c : CallChain) : String :=
  match c.calls with
  | [] => c.receiver
  | first :: rest =>
    c.receiver ++ "." ++ first.written ++ String.join (rest.map fun call => "\n  ." ++ call.written)

end CallChain
end GraphqlCrud.Script
