import GraphqlCrud.Proofs.Text.Lines
import GraphqlCrud.Script.SourceFile
/-!
The sections of a file. A file is printed piece by piece, with an empty line wherever a piece follows
another; the text is that of its sections, below each other with an empty line in between, whichever
of them are there.
-/
namespace GraphqlCrud

namespace Sheet

variable {α : Type}

theorem blocks_append (s : Sheet) (first second : List Block) :
    s.blocks (first ++ second) = (s.blocks first).blocks second := by
  induction first generalizing s with
  | nil => rw [List.nil_append, blocks]
  | cons b first ih => rw [List.cons_append, blocks, ih, blocks]

/-- What is written item by item may be written at once. -/
theorem foldl_blocks (s : Sheet) (blocksOf : α → List Block) (items : List α) :
    items.foldl (fun s item => s.blocks (blocksOf item)) s = s.blocks (items.flatMap blocksOf) := by
  induction items generalizing s with
  | nil => rw [List.flatMap_nil, blocks, List.foldl_nil]
  | cons item items ih => rw [List.foldl_cons, ih, List.flatMap_cons, blocks_append]

end Sheet

namespace Text

/-- A separator stands between two groups of texts if there is a text in both. -/
theorem intercalate_append (sep : String) (first second : List String) :
    sep.intercalate (first ++ second) = sep.intercalate first ++
      (if !first.isEmpty && !second.isEmpty then sep else "") ++ sep.intercalate second := by
  cases first with
  | nil => simp
  | cons text first =>
    cases second with
    | nil => simp
    | cons other second =>
      rw [String.intercalate_append_of_ne_nil (List.cons_ne_nil _ _) (List.cons_ne_nil _ _)]
      rfl

end Text

namespace Script

namespace Draft

def importsText (d : Draft) : String := Layout.render (d.imports.flatMap ImportLine.blocks)

def exportsText (d : Draft) : String := Layout.render (d.exports.flatMap Export.blocks)

/-- The texts between which an empty line stands: all imports, every element, all exports. -/
def sections (d : Draft) : List String :=
  (if d.imports.isEmpty then [] else [d.importsText]) ++ d.body.map Layout.render ++
    (if d.exports.isEmpty then [] else [d.exportsText])

variable {d : Draft} {s : Sheet}

/-- On a sheet as files are printed on: indented in the standard way, and at the margin. -/
def OnMargin (s : Sheet) : Prop := s.indent = .standard ∧ s.level = 0

theorem blocks_of_onMargin (h : OnMargin s) (bs : List Block) :
    s.blocks bs = { s with text := s.text ++ Layout.render bs } := by
  rw [Sheet.blocks_eq, h.1, h.2, Layout.render]

theorem separated_eq (isNeeded : Bool) (s : Sheet) :
    separated isNeeded s = { s with text := s.text ++ if isNeeded then "\n" else "" } := by
  cases isNeeded <;> simp [separated, Sheet.blankLine]

theorem writeImports_eq (h : OnMargin s) :
    d.writeImports s = { s with text := s.text ++ d.importsText } := by
  rw [writeImports, Sheet.foldl_blocks, blocks_of_onMargin h, importsText]

theorem writeExports_eq (h : OnMargin s) :
    d.writeExports s = { s with text := s.text ++ d.exportsText } := by
  rw [writeExports, Sheet.foldl_blocks, blocks_of_onMargin h, exportsText]

theorem foldl_element (h : OnMargin s) (first : List Block) (rest : List (List Block)) :
    rest.foldl (fun s element => s.blankLine.blocks element) (s.blocks first) =
      { s with text := s.text ++ "\n".intercalate ((first :: rest).map Layout.render) } := by
  induction rest generalizing s first with
  | nil => simp [blocks_of_onMargin h]
  | cons second rest ih =>
    have next : OnMargin (s.blocks first).blankLine := by
      rw [blocks_of_onMargin h]
      exact h
    rw [List.foldl_cons, ih next, blocks_of_onMargin h, List.map_cons, List.map_cons, List.map_cons,
      String.intercalate_cons_cons]
    simp only [Sheet.blankLine, String.append_assoc]

theorem writeBody_eq (h : OnMargin s) :
    d.writeBody s = { s with text := s.text ++ "\n".intercalate (d.body.map Layout.render) } := by
  rw [writeBody]
  cases d.body with
  | nil => simp
  | cons first rest => exact foldl_element h first rest

/-- A file is printed as its sections with an empty line between them. -/
theorem render_eq_intercalate (d : Draft) : d.render = "\n".intercalate d.sections := by
  have margin (text : String) : OnMargin { text } := ⟨rfl, rfl⟩
  have written : d.render = d.importsText ++
      (if !d.imports.isEmpty && (!d.body.isEmpty || !d.exports.isEmpty) then "\n" else "") ++
      "\n".intercalate (d.body.map Layout.render) ++
      (if !d.body.isEmpty && !d.exports.isEmpty then "\n" else "") ++ d.exportsText := by
    rw [render, write, writeImports_eq (margin _)]
    simp only [separated_eq]
    rw [writeBody_eq (margin _)]
    dsimp only
    rw [writeExports_eq (margin _)]
    simp only [String.empty_append]
  rw [written, sections, List.append_assoc, Text.intercalate_append, Text.intercalate_append]
  cases imports : d.imports <;> cases body : d.body <;> cases exports : d.exports <;>
    simp [importsText, exportsText, imports, exports, Layout.render, Layout.blocksText,
      String.append_assoc]

end Draft

namespace SourceFile

def importsText (f : SourceFile) : String := Layout.render (f.imports.flatMap ImportLine.blocks)

def declarationTexts (f : SourceFile) : List String :=
  f.declarations.map fun d => Layout.render d.blocks

def exportsText (f : SourceFile) : String := Layout.render (f.exports.flatMap Export.blocks)

/-- The texts between which an empty line stands: all imports, every declaration, all exports. -/
def sections (f : SourceFile) : List String :=
  (if f.imports.isEmpty then [] else [f.importsText]) ++ f.declarationTexts ++
    (if f.exports.isEmpty then [] else [f.exportsText])

theorem render_eq_intercalate (f : SourceFile) : f.render = "\n".intercalate f.sections := by
  have same : f.draft.sections = f.sections := by
    rw [Draft.sections, sections, draft, List.map_map]
    rfl
  rw [render, Draft.render_eq_intercalate, same]

end SourceFile

end Script
end GraphqlCrud
