import GraphqlCrud.Text.Lines
/-!
Indented code. A piece of code is a tree of blocks; its text depends on the tree, the unit of
indentation and the level at which it stands. A sheet is text being written at a current level.
-/
namespace GraphqlCrud

/-- How one level of indentation is written. Widths past eight count as eight. -/
inductive Indent where
  | spaces (width : Nat)
  | tab
deriving Repr, DecidableEq

def Indent.text : Indent → String
  | .spaces width => String.ofList (List.replicate (min width 8) ' ')
  | .tab => "\t"

/-- Generated files are indented by two spaces. -/
def Indent.standard : Indent := .spaces 2

/-- A piece of code: a line, a one-line documentation comment, or a header with an indented body
and, when it has one, a closing line. -/
inductive Block where
  | line (text : String)
  | remark (text : String)
  | group (header : String) (body : List Block) (footer : Option String)
deriving Repr, Inhabited

namespace Layout

def margin (unit : String) (level : Nat) : String := String.join (List.replicate level unit)

/-- One line with its ending. An empty line is not indented. -/
def lineText (unit : String) (level : Nat) (text : String) : String :=
  if text = "" then "\n" else margin unit level ++ text ++ "\n"

mutual
def blockText (unit : String) (level : Nat) : Block → String
  | .line text => lineText unit level text
  | .remark text => lineText unit level ("/** " ++ text ++ " */")
  | .group header body footer =>
    lineText unit level header ++ blocksText unit (level + 1) body ++
      (footer.map (lineText unit level)).getD ""

def blocksText (unit : String) (level : Nat) : List Block → String
  | [] => ""
  | block :: rest => blockText unit level block ++ blocksText unit level rest
end

def render (blocks : List Block) : String := blocksText Indent.standard.text 0 blocks

def linesOf (text : String) : List Block := (Text.lines text).map .line

end Layout

/-- Text under way, and the level at which the next line goes. -/
structure Sheet where
  indent : Indent := .standard
  level : Nat := 0
  text : String := ""
deriving Repr

namespace Sheet

def line (s : Sheet) (text : String) : Sheet :=
  { s with text := s.text ++ Layout.lineText s.indent.text s.level text }

def blankLine (s : Sheet) : Sheet := { s with text := s.text ++ "\n" }

def indented (s : Sheet) : Sheet := { s with level := s.level + 1 }

/-- One level less; at the margin there is none to give up. -/
def dedented (s : Sheet) : Sheet := { s with level := s.level - 1 }

mutual
/-- Writes a block. The body of a group goes one level further in, and the level is given back
behind it. -/
def block (s : Sheet) : Block → Sheet
  | .line text => s.line text
  | .remark text => s.line ("/** " ++ text ++ " */")
  | .group header body footer =>
    let s := ((s.line header).indented.blocks body).dedented
    match footer with
    | some footer => s.line footer
    | none => s

def blocks (s : Sheet) : List Block → Sheet
  | [] => s
  | b :: rest => (s.block b).blocks rest
end

mutual
theorem block_eq (s : Sheet) : ∀ b : Block,
    s.block b = { s with text := s.text ++ Layout.blockText s.indent.text s.level b }
  | .line _ => rfl
  | .remark _ => rfl
  | .group header body none => by
    rw [block, blocks_eq _ body]
    simp [Layout.blockText, line, indented, dedented, String.append_assoc]
  | .group header body (some footer) => by
    rw [block, blocks_eq _ body]
    simp [Layout.blockText, line, indented, dedented, String.append_assoc]

theorem blocks_eq (s : Sheet) : ∀ bs : List Block,
    s.blocks bs = { s with text := s.text ++ Layout.blocksText s.indent.text s.level bs }
  | [] => by rw [blocks, Layout.blocksText, String.append_empty]
  | b :: rest => by
    rw [blocks, blocks_eq _ rest, block_eq s b]
    simp [Layout.blocksText, String.append_assoc]
end

def lines (s : Sheet) (text : String) : Sheet := (Text.lines text).foldl line s

/-- What `write` puts on the sheet for each item in turn; a level it changes stays changed. -/
def each {α : Type} (s : Sheet) (items : List α) (write : Sheet → α → Sheet) : Sheet :=
  items.foldl write s

end Sheet
end GraphqlCrud
