import GraphqlCrud.Script.Declaration
/-!
A generated file: its imports, its declarations and its exports, printed in this order with one
empty line between the three sections and between declarations. It is printed as a draft, which knows
of a declaration no more than its blocks.
-/
namespace GraphqlCrud.Script

/-- A line of the import section: an import, or configured text that is written as it is. -/
inductive ImportLine where
  | statement (value : Import)
  | given (text : String)
deriving Repr, DecidableEq

def ImportLine.blocks : ImportLine → List Block
  | .statement value => [.line value.statement]
  | .given text => (Text.lines text).map fun line => .line (Text.trimEnd line)

/-- Configured import text without the white space around it; blank text gives nothing. -/
def ImportLine.ofText? (text : String) : Option ImportLine :=
  let trimmed := Text.trim text
  if trimmed = "" then none else some (.given trimmed)

inductive Declaration where
  | constant (value : Constant)
  | function (value : FunctionDef)
  | object (value : ObjectLiteral)
  | code (text : String)

def Declaration.blocks : Declaration → List Block
  | .constant value => value.blocks
  | .function value => value.blocks
  | .object value => value.blocks
  | .code text => Layout.linesOf text

/-- A file under way: its import lines, the blocks of every element of its body, and its exports. -/
structure Draft where
  imports : List ImportLine := []
  body : List (List Block) := []
  exports : List Export := []

namespace Draft

/-- What a draft is put together from; of every kind but text there may be several at once. -/
inductive Addition where
  | imports (values : List Import)
  | given (text : String)
  | body (elements : List (List Block))
  | exports (values : List Export)

def add (d : Draft) : Addition → Draft
  | .imports values => { d with imports := d.imports ++ values.map .statement }
  | .given text => { d with imports := d.imports ++ (ImportLine.ofText? text).toList }
  | .body elements => { d with body := d.body ++ elements }
  | .exports values => { d with exports := d.exports ++ values }

def ofAdditions (additions : List Addition) : Draft := additions.foldl add {}

def isEmpty (d : Draft) : Bool := d.imports.isEmpty && d.body.isEmpty && d.exports.isEmpty

def writeImports (d : Draft) (s : Sheet) : Sheet :=
  d.imports.foldl (fun s line => s.blocks line.blocks) s

def writeBody (d : Draft) (s : Sheet) : Sheet :=
  match d.body with
  | [] => s
  | first :: rest => rest.foldl (fun s element => s.blankLine.blocks element) (s.blocks first)

def writeExports (d : Draft) (s : Sheet) : Sheet :=
  d.exports.foldl (fun s e => s.blocks e.blocks) s

def separated (isNeeded : Bool) (s : Sheet) : Sheet := if isNeeded then s.blankLine else s

def write (d : Draft) (s : Sheet) : Sheet :=
  let s := d.writeImports s
  let s := separated (!d.imports.isEmpty && (!d.body.isEmpty || !d.exports.isEmpty)) s
  let s := d.writeBody s
  let s := separated (!d.body.isEmpty && !d.exports.isEmpty) s
  d.writeExports s

def render (d : Draft) : String := (d.write {}).text

end Draft

structure SourceFile where
  imports : List ImportLine := []
  declarations : List Declaration := []
  exports : List Export := []

namespace SourceFile

def draft (f : SourceFile) : Draft :=
  { imports := f.imports, body := f.declarations.map Declaration.blocks, exports := f.exports }

def isEmpty (f : SourceFile) : Bool := f.draft.isEmpty

def render (f : SourceFile) : String := f.draft.render

end SourceFile
end GraphqlCrud.Script
