import GraphqlCrud.Proofs.Script.Declarations
import GraphqlCrud.Proofs.Text.Search
import GraphqlCrud.Proofs.Text.Words
/-!
The names that a generated file binds at its top level, read off its text. Generated code is
indented inside its braces, so what stands at the margin belongs to the file as a whole.
-/
namespace GraphqlCrud.Script

open Text Layout

/-- Characters beyond ASCII are taken for letters. -/
def isNamePart (c : Char) : Bool := 128 ≤ c.toNat || isIdentifierPart c

/-- The name with which a text begins. -/
def leadingName (s : List Char) : String := String.ofList (s.takeWhile isNamePart)

/-- The names in the braces of an import, given what follows the opening one. -/
def namesInBraces (s : List Char) : List String :=
  ((s.takeWhile (· != '\x7d')).splitOn ',').map fun name =>
    leadingName (name.dropWhile (· == ' '))

/-- The words that declare the name behind them. -/
def declarators : List String := ["const ", "function ", "type "]

/-- The name that a line declares, whether or not it is exported. -/
def declaredNames (line : List Char) : List String :=
  let statement := (after? "export ".toList line).getD line
  ((declarators.findSome? fun word => after? word.toList statement).map leadingName).toList

def lineBindings (line : List Char) : List String :=
  match after? "import * as ".toList line, after? "import \x7b ".toList line with
  | some rest, _ => [leadingName rest]
  | none, some rest => namesInBraces rest
  | none, none => declaredNames line

/-- The names that the lines of a text bind, in the order of the lines. -/
def bindings (text : String) : List String := (text.toList.splitOn '\n').flatMap lineBindings

/-! One line -/

theorem leadingName_word {name : String} (h : IsWord name) {c : Char} {more : List Char}
    (other : isNamePart c = false) : leadingName (name.toList ++ c :: more) = name := by
  have part : ∀ d ∈ name.toList, isNamePart d = true := by
    intro d hd
    by_cases ascii : d.toNat < 128
    · simp [isNamePart, h.plain d hd ascii]
    · simp [isNamePart, Nat.le_of_not_lt ascii]
  rw [leadingName, List.takeWhile_append_of_pos part,
    List.takeWhile_cons_of_neg (by rw [other]; exact Bool.false_ne_true), List.append_nil,
    String.ofList_toList]

theorem lineBindings_namespace {name : String} (h : IsWord name) {c : Char} {more : List Char}
    (other : isNamePart c = false) :
    lineBindings ("import * as ".toList ++ (name.toList ++ c :: more)) = [name] := by
  rw [lineBindings, after?_append]
  exact congrArg (fun n => [n]) (leadingName_word h other)

theorem lineBindings_function {name : String} (h : IsWord name) (isExported : Bool) {c : Char}
    {more : List Char} (other : isNamePart c = false) :
    lineBindings ((exportMark isExported ++ "function ").toList ++ (name.toList ++ c :: more)) =
      [name] := by
  have declared (s : List Char) :
      lineBindings ((exportMark isExported ++ "function ").toList ++ s) = [leadingName s] := by
    cases isExported <;> rfl
  rw [declared, leadingName_word h other]

/-- A line that begins with a space is inside of something. -/
theorem lineBindings_indented (rest : List Char) : lineBindings (' ' :: rest) = [] := rfl

/-! Several lines -/

theorem bindings_of_unbroken {line : String} (h : '\n' ∉ line.toList) :
    bindings line = lineBindings line.toList := by
  rw [bindings, List.splitOn_eq_singleton h, List.flatMap_singleton]

theorem bindings_append_lineFeed (first second : String) :
    bindings (first ++ "\n" ++ second) = bindings first ++ bindings second := by
  have feed : (first ++ "\n" ++ second).toList = first.toList ++ '\n' :: second.toList := by
    rw [String.append_assoc, String.toList_append, String.toList_append]
    rfl
  rw [bindings, feed, List.splitOn_append_cons_self, List.flatMap_append, bindings, bindings]

theorem bindings_empty : bindings "" = [] := by decide

theorem bindings_ended (lines : List String) : bindings (ended lines) = lines.flatMap bindings := by
  induction lines with
  | nil => exact bindings_empty
  | cons line lines ih => rw [ended_cons, bindings_append_lineFeed, ih, List.flatMap_cons]

theorem bindings_intercalate (texts : List String) :
    bindings ("\n".intercalate texts) = texts.flatMap bindings := by
  induction texts with
  | nil => exact bindings_empty
  | cons text texts ih =>
    cases texts with
    | nil => simp
    | cons next rest =>
      rw [String.intercalate_cons_cons, bindings_append_lineFeed, ih]
      exact List.flatMap_cons.symm

/-- Whatever stands further in than the margin binds nothing. -/
theorem bindings_inward {line : String} (h : '\n' ∉ line.toList) : bindings (inward line) = [] := by
  by_cases empty : line = ""
  · rw [empty]
    decide
  · have margin : ("  " ++ line).toList = ' ' :: ' ' :: line.toList := by
      rw [String.toList_append]
      rfl
    rw [inward_of_ne_empty empty, bindings_of_unbroken (notMem_append (by decide) h), margin,
      lineBindings_indented]

/-- The characters of a literal are read off it by comparing it with their text. -/
theorem notMem_literal {c : Char} {text : String} {chars : List Char}
    (h : text = String.ofList chars) (other : c ∉ chars) : c ∉ text.toList := by
  rwa [h, String.toList_ofList]

/-- The names that the lines of spliced code bind. -/
theorem bindings_code {text : String} {chars : List Char} {names : List String}
    (h : text = String.ofList chars)
    (bound : (linesOfParts (chars.splitOn '\n')).flatMap (fun line =>
      (line.splitOn '\n').flatMap lineBindings) = names) :
    bindings (render (Declaration.code text).blocks) = names := by
  rw [render_eq_ended, Declaration.blocks, Layout.linesOf, renderedLines_lines, bindings_ended,
    Text.lines, List.flatMap_map, h, String.toList_ofList]
  simp only [bindings, String.toList_ofList]
  exact bound

theorem bindings_function {f : FunctionDef} (h : IsWord f.name) (plain : f.remark = none)
    (signature : '\n' ∉ f.signature.toList) (body : ∀ line ∈ f.body, '\n' ∉ line.toList) :
    bindings (render (Declaration.function f).blocks) = [f.name] := by
  have blocks : (Declaration.function f).blocks =
      [.group f.signature (f.body.map .line) (some "\x7d")] := by
    simp [Declaration.blocks, FunctionDef.blocks, plain]
  have named : bindings f.signature = [f.name] := by
    have opened : f.signature.toList =
        (exportMark f.isExported ++ "function ").toList ++ (f.name.toList ++ '(' ::
          (", ".intercalate (f.parameters.map Parameter.written) ++ ")" ++
            ((f.returns.map fun t => ": " ++ t).getD "") ++ " \x7b").toList) := by
      simp only [FunctionDef.signature, String.toList_append, List.append_assoc]
      rfl
    rw [bindings_of_unbroken signature, opened, lineBindings_function h _ (by decide)]
  have inner : (f.body.map inward).flatMap bindings = [] := by
    rw [List.flatMap_map, List.flatMap_eq_nil_iff]
    exact fun line hline => bindings_inward (body line hline)
  have closing : bindings "\x7d" = [] := by decide
  rw [render_eq_ended, blocks, renderedLines_group, renderedLines_lines, renderedLines_nil,
    bindings_ended, List.flatMap_cons, List.flatMap_append, named, inner, List.flatMap_singleton,
    closing]
  rfl

/-- A file without exports of its own binds what its imports and its declarations bind. -/
theorem bindings_render {f : SourceFile} (h : f.exports = []) (imports : f.imports ≠ []) :
    bindings f.render =
      bindings f.importsText ++ f.declarations.flatMap fun d => bindings (render d.blocks) := by
  have some_import : f.imports.isEmpty = false := by simpa using imports
  rw [SourceFile.render_eq_intercalate, bindings_intercalate, SourceFile.sections, h, some_import]
  simp [SourceFile.declarationTexts, List.flatMap_map]

end GraphqlCrud.Script
