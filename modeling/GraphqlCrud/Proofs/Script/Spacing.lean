import GraphqlCrud.Proofs.Layout.Rendering
import GraphqlCrud.Proofs.Script.Sections
import GraphqlCrud.Proofs.Text.Framing
/-!
Empty lines between the sections of a file. However a file is put together, its sections stand below
each other with one empty line in between; and where the elements of its body leave no empty line at
their ends, that is the only one there, and there is none at the ends of the file.
-/
namespace GraphqlCrud

namespace Layout

open Text

/-- The lines of the text that blocks are rendered to. -/
def shownLines (bs : List Block) : List String := lines (render bs)

theorem endsLine_render (bs : List Block) : EndsLine (render bs) := by
  rw [render_eq_ended]
  exact endsLine_ended _

theorem shownLines_append (first second : List Block) :
    shownLines (first ++ second) = shownLines first ++ shownLines second := by
  have below : render (first ++ second) = render first ++ render second := by
    simp only [render_eq_ended, renderedLines_append, ended_append]
  rw [shownLines, below, lines_append (endsLine_render first), shownLines, shownLines]

@[simp] theorem shownLines_nil : shownLines [] = [] := by decide

theorem shownLines_flatMap {α : Type} (items : List α) (blocksOf : α → List Block) :
    shownLines (items.flatMap blocksOf) = items.flatMap fun a => shownLines (blocksOf a) := by
  induction items with
  | nil => exact shownLines_nil
  | cons a items ih => rw [List.flatMap_cons, shownLines_append, ih, List.flatMap_cons]

theorem isFramed_line {text : String} (start : StartsVisible text) (solid : IsSolid text) :
    IsFramed (shownLines [.line text]) := by
  have shown : shownLines [.line text] = lines text := by
    rw [shownLines, render_eq_ended, renderedLines_line, renderedLines_nil, ended_cons, ended_nil,
      String.append_empty, solid.lines_append_feed]
  rw [shown]
  exact (hasEnds_lines start solid).mono fun l h => h.ne_empty

end Layout

namespace Script

open Layout Text

theorem isSolid_semicolon : IsSolid ";" := ⟨[], ';', by decide, by decide⟩

theorem ends_statement (i : Import) : StartsVisible i.statement ∧ IsSolid i.statement := by
  have start : StartsVisible "import " := ⟨'i', "mport ".toList, by decide, by decide⟩
  rw [Import.statement]
  split
  all_goals
    refine ⟨?_, isSolid_semicolon.append _⟩
    simp only [String.append_assoc]
    exact start.append _

theorem ends_of_statement? {e : Export} {statement : String} (h : e.statement? = some statement) :
    StartsVisible statement ∧ IsSolid statement := by
  have named : StartsVisible "export " := ⟨'e', "xport ".toList, by decide, by decide⟩
  have whole : StartsVisible "export * from " := ⟨'e', "xport * from ".toList, by decide, by decide⟩
  rw [Export.statement?] at h
  split at h
  · obtain rfl := Option.some.inj h
    exact ⟨(whole.append _).append _, isSolid_semicolon.append _⟩
  · obtain rfl := Option.some.inj h
    refine ⟨?_, isSolid_semicolon.append _⟩
    simp only [String.append_assoc]
    exact named.append _
  · cases h
  · obtain rfl := Option.some.inj h
    refine ⟨?_, isSolid_semicolon.append _⟩
    simp only [String.append_assoc]
    exact named.append _

/-- Given text begins and ends with something visible. -/
def ImportLine.IsVisible : ImportLine → Prop
  | .statement _ => True
  | .given text => StartsVisible text ∧ IsSolid text

theorem isVisible_of_ofText? {text : String} {line : ImportLine}
    (h : ImportLine.ofText? text = some line) : line.IsVisible := by
  rw [ImportLine.ofText?] at h
  split at h
  · cases h
  · next filled =>
    obtain rfl := Option.some.inj h
    exact ⟨startsVisible_trim filled, isSolid_trimEnd filled⟩

theorem ofText?_eq_none_iff {text : String} :
    ImportLine.ofText? text = none ↔ allBlank text = true := by
  rw [allBlank_iff_trim_eq, ImportLine.ofText?]
  split <;> simp [*]

theorem shownLines_given (text : String) : shownLines (ImportLine.given text).blocks =
    ((lines text).map trimEnd).map withoutReturn := by
  have unbroken : ∀ l ∈ (lines text).map trimEnd, '\n' ∉ l.toList := by
    rw [List.forall_mem_map]
    exact fun l hl feed => unbroken_of_mem_lines text l hl (mem_trimEnd feed)
  have blocks : (ImportLine.given text).blocks = ((lines text).map trimEnd).map .line := by
    rw [List.map_map]
    rfl
  rw [shownLines, render_eq_ended, blocks, renderedLines_lines, lines_ended_unbroken unbroken]

theorem isFramed_importLine {line : ImportLine} (h : line.IsVisible) :
    IsFramed (shownLines line.blocks) := by
  cases line with
  | statement i => exact isFramed_line (ends_statement i).1 (ends_statement i).2
  | given text =>
    have trimmed := (hasEnds_lines h.1 h.2).map fun l hl => hl.trimEnd
    rw [shownLines_given]
    exact trimmed.map fun l hl => hl.withoutReturn.ne_empty

theorem isFramed_export {e : Export} (h : shownLines e.blocks ≠ []) :
    IsFramed (shownLines e.blocks) := by
  cases statement : e.statement? with
  | none =>
    have blocks : e.blocks = [] := by rw [Export.blocks, statement]; rfl
    rw [blocks] at h
    exact absurd shownLines_nil h
  | some line =>
    have blocks : e.blocks = [.line line] := by rw [Export.blocks, statement]; rfl
    obtain ⟨start, solid⟩ := ends_of_statement? statement
    rw [blocks]
    exact isFramed_line start solid

namespace Draft

/-! What a draft comes to hold -/

namespace Addition

def importLines : Addition → List ImportLine
  | .imports values => values.map .statement
  | .given text => (ImportLine.ofText? text).toList
  | _ => []

def elements : Addition → List (List Block)
  | .body elements => elements
  | _ => []

def exportsAdded : Addition → List Export
  | .exports values => values
  | _ => []

/-- The addition has an import, or text that is not blank. -/
def BringsImport : Addition → Prop
  | .imports values => values ≠ []
  | .given text => allBlank text = false
  | _ => False

theorem importLines_ne_nil_iff {a : Addition} : a.importLines ≠ [] ↔ a.BringsImport := by
  cases a with
  | given text =>
    rw [importLines, BringsImport, Ne, Option.toList_eq_nil_iff, ofText?_eq_none_iff,
      Bool.not_eq_true]
  | _ => simp [importLines, BringsImport]

end Addition

theorem add_eq (d : Draft) (a : Addition) : d.add a = {
    imports := d.imports ++ a.importLines
    body := d.body ++ a.elements
    exports := d.exports ++ a.exportsAdded } := by
  cases a <;> simp [add, Addition.importLines, Addition.elements, Addition.exportsAdded]

theorem foldl_add (d : Draft) (additions : List Addition) : additions.foldl add d = {
    imports := d.imports ++ additions.flatMap Addition.importLines
    body := d.body ++ additions.flatMap Addition.elements
    exports := d.exports ++ additions.flatMap Addition.exportsAdded } := by
  induction additions generalizing d with
  | nil => simp
  | cons a additions ih => simp [ih, add_eq, List.append_assoc]

theorem ofAdditions_eq (additions : List Addition) : ofAdditions additions = {
    imports := additions.flatMap Addition.importLines
    body := additions.flatMap Addition.elements
    exports := additions.flatMap Addition.exportsAdded } := by
  rw [ofAdditions, foldl_add]
  rfl

theorem imports_ofAdditions_ne_nil_iff {additions : List Addition} :
    (ofAdditions additions).imports ≠ [] ↔ ∃ a ∈ additions, a.BringsImport := by
  simp only [ofAdditions_eq, ne_eq, List.flatMap_eq_nil_iff, not_forall,
    ← Addition.importLines_ne_nil_iff, exists_prop]

theorem isVisible_ofAdditions {additions : List Addition} {line : ImportLine}
    (h : line ∈ (ofAdditions additions).imports) : line.IsVisible := by
  rw [ofAdditions_eq] at h
  obtain ⟨a, -, member⟩ := List.mem_flatMap.mp h
  cases a with
  | imports values =>
    rw [Addition.importLines] at member
    obtain ⟨i, -, rfl⟩ := List.mem_map.mp member
    trivial
  | given text =>
    rw [Addition.importLines] at member
    exact isVisible_of_ofText? (Option.mem_toList.mp member)
  | _ => cases member

/-! The lines of its text -/

variable {d : Draft}

theorem endsLine_section : ∀ text ∈ d.sections, EndsLine text := by
  intro text member
  simp only [sections, List.mem_append, List.mem_map, List.mem_ite_nil_left, List.mem_singleton,
    importsText, exportsText] at member
  rcases member with (⟨-, rfl⟩ | ⟨element, -, rfl⟩) | ⟨-, rfl⟩ <;> exact endsLine_render _

theorem lines_render (d : Draft) : lines d.render = [""].intercalate (d.sections.map lines) := by
  rw [render_eq_intercalate, lines_intercalate_ended endsLine_section]

/-- Every element and every export has lines, and no element has an empty one at its ends. -/
structure IsFilledIn (d : Draft) : Prop where
  body : ∀ element ∈ d.body, IsFramed (shownLines element)
  exports : ∀ e ∈ d.exports, shownLines e.blocks ≠ []

theorem isFramed_section (visible : ∀ line ∈ d.imports, line.IsVisible) (filled : d.IsFilledIn) :
    ∀ text ∈ d.sections, IsFramed (lines text) := by
  intro text member
  simp only [sections, List.mem_append, List.mem_map, List.mem_ite_nil_left, List.mem_singleton,
    List.isEmpty_iff] at member
  rcases member with (⟨imports, rfl⟩ | ⟨element, member, rfl⟩) | ⟨exports, rfl⟩
  · rw [importsText, ← shownLines, shownLines_flatMap]
    exact .flatMap (fun line hline => isFramed_importLine (visible line hline)) imports
  · exact filled.body element member
  · rw [exportsText, ← shownLines, shownLines_flatMap]
    exact .flatMap (fun e he => isFramed_export (filled.exports e he)) exports

/-- The empty lines of a file that do not belong to a section are single ones between two. -/
structure IsTidy (d : Draft) : Prop where
  framed : ∀ text ∈ d.sections, IsFramed (lines text)
  start : (lines d.render).head? ≠ some ""
  stop : (lines d.render).getLast? ≠ some ""
  apart : (lines d.render).IsChain NotBothEmpty ↔
    ∀ text ∈ d.sections, (lines text).IsChain NotBothEmpty

theorem isTidy_of_framed (h : ∀ text ∈ d.sections, IsFramed (lines text)) : d.IsTidy := by
  have groups : ∀ g ∈ d.sections.map lines, IsFramed g := List.forall_mem_map.mpr h
  refine { framed := h, start := ?_, stop := ?_, apart := ?_ }
  · rw [lines_render]
    cases sections : d.sections.map lines with
    | nil => decide
    | cons g rest =>
      rw [sections] at groups
      exact (isFramed_intercalate groups (List.cons_ne_nil g rest)).head_ne
  · rw [lines_render]
    cases sections : d.sections.map lines with
    | nil => decide
    | cons g rest =>
      rw [sections] at groups
      exact (isFramed_intercalate groups (List.cons_ne_nil g rest)).getLast_ne
  · rw [lines_render, isChain_intercalate groups, List.forall_mem_map]

/-- How a file is spaced that was put together from additions. -/
structure IsSpaced (additions : List Addition) : Prop where
  /-- It holds what was added, each kind in its order. -/
  collected : ofAdditions additions = {
    imports := additions.flatMap Addition.importLines
    body := additions.flatMap Addition.elements
    exports := additions.flatMap Addition.exportsAdded }
  imported : (ofAdditions additions).imports ≠ [] ↔ ∃ a ∈ additions, a.BringsImport
  joined : (ofAdditions additions).render = "\n".intercalate (ofAdditions additions).sections
  /-- Line by line, one empty line stands between two sections. -/
  lined : lines (ofAdditions additions).render =
    [""].intercalate ((ofAdditions additions).sections.map lines)
  tidy : (ofAdditions additions).IsFilledIn → (ofAdditions additions).IsTidy

theorem render_isSpaced (additions : List Addition) : IsSpaced additions :=
  { collected := ofAdditions_eq additions
    imported := imports_ofAdditions_ne_nil_iff
    joined := render_eq_intercalate _
    lined := lines_render _
    tidy := fun filled =>
      isTidy_of_framed (isFramed_section (fun _ => isVisible_ofAdditions) filled) }

/-- Additions of every kind, in no order. -/
def mixedAdditions : List Addition := [
  .exports [{ names := ["b"] }],
  .given " \n",
  .body [linesOf "const a = 1;\n\nuse(a);", linesOf "const b = 2;"],
  .imports [{ source := "../utils", names := ["u"] }],
  .given "import c from 'c';  \nimport d from 'd';\n"]

theorem mixedAdditions_tidy :
    (ofAdditions mixedAdditions).IsFilledIn ∧ (ofAdditions mixedAdditions).IsTidy := by
  have body : (ofAdditions mixedAdditions).body =
      [linesOf "const a = 1;\n\nuse(a);", linesOf "const b = 2;"] := rfl
  have exports : (ofAdditions mixedAdditions).exports = [{ names := ["b"] }] := rfl
  have first : IsFramed (shownLines (linesOf "const a = 1;\n\nuse(a);")) :=
    ⟨⟨"const a = 1;", by decide +kernel, by decide⟩, ⟨"use(a);", by decide +kernel, by decide⟩⟩
  have second : IsFramed (shownLines (linesOf "const b = 2;")) :=
    ⟨⟨"const b = 2;", by decide +kernel, by decide⟩,
      ⟨"const b = 2;", by decide +kernel, by decide⟩⟩
  have filled : (ofAdditions mixedAdditions).IsFilledIn := by
    refine ⟨?_, ?_⟩
    · rw [body]
      exact List.forall_mem_cons.mpr ⟨first, List.forall_mem_singleton.mpr second⟩
    · rw [exports]
      exact List.forall_mem_singleton.mpr (by decide +kernel)
  exact ⟨filled, (render_isSpaced mixedAdditions).tidy filled⟩

/-- All imports, then each element, then all exports; blank text adds nothing. -/
example : (ofAdditions mixedAdditions).render =
    "import \x7b u \x7d from '../utils';\nimport c from 'c';\nimport d from 'd';\n\n" ++
      "const a = 1;\n\nuse(a);\n\nconst b = 2;\n\nexport \x7b b \x7d;\n" := by decide +kernel

/-- An element without lines leaves two empty lines behind. -/
example : (ofAdditions [.body [linesOf "a", linesOf "", linesOf "b"]]).render = "a\n\n\nb\n" := by
  decide +kernel

end Draft
end Script
end GraphqlCrud
