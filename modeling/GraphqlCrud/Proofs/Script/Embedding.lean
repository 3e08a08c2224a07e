import GraphqlCrud.Proofs.Script.PrintedForms
/-!
Objects inside objects. A nested object may be given as a tree or as code that was rendered before:
the outer object has the same text, because code that is spliced in is split into the lines that the
tree has, and moves in as a whole.
-/
namespace GraphqlCrud.Text

variable {s : String}

theorem isLine_of_mem_lines (returnless : '\r' ∉ s.toList) : ∀ l ∈ lines s, IsLine l := by
  obtain ⟨ls, last, hls, hlast, rfl⟩ := exists_lines returnless
  rw [lines_intercalate hls hlast.unbroken]
  intro l hl
  rcases List.mem_append.mp hl with hl | hl
  · exact hls l hl
  · split at hl
    · cases hl
    · obtain rfl := List.mem_singleton.mp hl
      exact hlast

theorem IsLine.intercalate {sep : String} (hsep : IsLine sep) {texts : List String}
    (h : ∀ t ∈ texts, IsLine t) : IsLine (sep.intercalate texts) := by
  rcases List.eq_nil_or_concat' texts with rfl | ⟨init, last, rfl⟩
  · exact fun _ member => nomatch member
  · rw [List.forall_mem_append, List.forall_mem_singleton] at h
    rw [intercalate_concat]
    refine .append ?_ h.2
    intro c hc
    simp only [String.toList_join, List.mem_flatMap, List.mem_map] at hc
    obtain ⟨-, ⟨t, ht, rfl⟩, hc⟩ := hc
    exact (h.1 t ht).append hsep c hc

end GraphqlCrud.Text

namespace GraphqlCrud.Script

open Layout Text

theorem isLine_templateLiteral {s : String} (h : IsLine s) : IsLine (templateLiteral s) := by
  intro c hc
  rw [templateLiteral, String.toList_ofList, List.cons_append] at hc
  simp only [List.mem_cons, List.mem_append, List.not_mem_nil, or_false] at hc
  rcases hc with rfl | hc | rfl
  · decide
  · rcases mem_templateChars hc with hc | rfl
    · exact h c hc
    · decide
  · decide

theorem isLine_propertyKey (key : String) : IsLine (propertyKey key) := by
  unfold propertyKey
  split
  · next name => exact (IsWord.of_isIdentifier name).isLine
  · exact isLine_doubleQuoted key

theorem isLine_codeBetween {head code tail : String} (hhead : IsLine head)
    (returnless : '\r' ∉ code.toList) (htail : IsLine tail) :
    ∀ l ∈ renderedLines (codeBetween head code tail), IsLine l :=
  forall_mem_codeBetween IsLine.append hhead
    (isLine_of_mem_lines fun member => returnless (mem_trimEnd member)) htail

/-- A string is quoted, so only code can end the line of an array. -/
def Element.KeepsLine : Element → Prop
  | .text _ => True
  | .code value => IsLine value

instance : DecidablePred Element.KeepsLine
  | .text _ => isTrue trivial
  | .code value => inferInstanceAs (Decidable (IsLine value))

theorem isLine_array {a : ArrayLiteral} (h : ∀ e ∈ a.elements, e.KeepsLine) :
    IsLine a.inline := by
  have element : ∀ t ∈ a.elements.map Element.written, IsLine t := by
    intro t ht
    obtain ⟨e, he, rfl⟩ := List.mem_map.mp ht
    cases e with
    | text value => exact isLine_doubleQuoted value
    | code value => exact h _ he
  have mark : IsLine a.constMark := by
    unfold ArrayLiteral.constMark
    split <;> decide
  have comma : IsLine ", " := by decide
  have opening : IsLine "[" := by decide
  have closing : IsLine "]" := by decide
  exact ((opening.append (comma.intercalate element)).append closing).append mark

/-! The members of a nested object. Code and arrow functions may hold line feeds, since they are split
into lines; everything else stands on one line. A carriage return goes with the line feed after it,
once for each time that code is split, so there may be none. -/

mutual
def Expr.KeepsLines : Expr → Prop
  | .text _ => True
  | .template value => IsLine value
  | .code value => '\r' ∉ value.toList
  | .array value => ∀ e ∈ value.elements, e.KeepsLine
  | .object members => KeepLines members
  | .arrow params isAsync body => '\r' ∉ (body.written (arrowHead params isAsync)).toList

def Member.KeepsLines : Member → Prop
  | .property _ value => value.KeepsLines
  | .spread code => IsLine code

def KeepLines : List Member → Prop
  | [] => True
  | m :: rest => m.KeepsLines ∧ KeepLines rest
end

/-- The rendered lines are single lines, so that splitting their text gives them again. -/
def AreLines (blocks : List Block) : Prop := ∀ l ∈ renderedLines blocks, IsLine l

theorem areLines_line {text : String} (h : IsLine text) : AreLines [.line text] := by
  rw [AreLines, renderedLines_line, renderedLines_nil]
  exact List.forall_mem_singleton.mpr h

theorem areLines_property {key written : String} (hkey : IsLine key) (hwritten : IsLine written) :
    AreLines [.line (key ++ ": " ++ written ++ ",")] :=
  areLines_line (((hkey.append (by decide)).append hwritten).append (by decide))

theorem AreLines.append {first second : List Block} (h : AreLines first) (h' : AreLines second) :
    AreLines (first ++ second) := by
  rw [AreLines, renderedLines_append]
  exact List.forall_mem_append.mpr ⟨h, h'⟩

theorem AreLines.group {header footer : String} {body : List Block} (hheader : IsLine header)
    (h : AreLines body) (hfooter : IsLine footer) :
    AreLines [.group header body (some footer)] := by
  rw [AreLines, renderedLines_group, renderedLines_nil, List.forall_mem_cons,
    List.forall_mem_append, List.forall_mem_singleton, List.forall_mem_map]
  exact ⟨hheader, fun l hl => isLine_inward (h l hl), hfooter⟩

-- By recursion on the literal; an arrow function is rendered before it is split, so its own members
-- do not matter here.
mutual
theorem areLines_value {key : String} (hkey : IsLine key) :
    ∀ value : Expr, value.KeepsLines → AreLines (value.blocks key)
  | .text value, _ => by
    rw [Expr.blocks]
    exact areLines_property hkey (isLine_doubleQuoted value)
  | .template value, h => by
    rw [Expr.blocks]
    exact areLines_property hkey (isLine_templateLiteral h)
  | .array value, h => by
    rw [Expr.blocks]
    exact areLines_property hkey (isLine_array h)
  | .code value, h => by
    rw [Expr.blocks]
    exact isLine_codeBetween (hkey.append (by decide)) h (by decide)
  | .arrow params isAsync body, h => by
    rw [Expr.blocks]
    exact isLine_codeBetween (hkey.append (by decide)) h (by decide)
  | .object [], _ => by
    rw [Expr.blocks]
    exact areLines_line (hkey.append (by decide))
  | .object (m :: rest), h => by
    rw [Expr.blocks]
    exact .group (hkey.append (by decide)) ((areLines_member m h.1).append (areLines_all rest h.2))
      (by decide)

theorem areLines_member : ∀ m : Member, m.KeepsLines → AreLines m.blocks
  | .spread code, h => by
    have dots : IsLine "..." := by decide
    rw [Member.blocks]
    exact areLines_line ((dots.append h).append (by decide))
  | .property key value, h => by
    rw [Member.blocks]
    split
    · next short =>
      have name : isIdentifier key = true := by
        cases value <;> simp_all [isShorthand]
      exact areLines_line ((IsWord.of_isIdentifier name).isLine.append (by decide))
    · exact areLines_value (isLine_propertyKey key) value h

theorem areLines_all : ∀ members : List Member, KeepLines members → AreLines (memberBlocks members)
  | [], _ => nofun
  | m :: rest, h => by
    rw [memberBlocks]
    exact (areLines_member m h.1).append (areLines_all rest h.2)
end

theorem memberBlocks_ne_nil {o : ObjectLiteral} (filled : o ≠ []) : memberBlocks o ≠ [] := by
  obtain ⟨m, rest, rfl⟩ := List.exists_cons_of_ne_nil filled
  rw [memberBlocks]
  exact List.append_ne_nil_of_left_ne_nil (blocks_ne_nil m) _

theorem exists_multiline_eq (o : ObjectLiteral) : ∃ rest, o.multiline = "\x7b" ++ rest := by
  by_cases empty : o = []
  · exact ⟨"\x7d", by rw [empty]; decide +kernel⟩
  · rw [multiline_eq_ended (memberBlocks_ne_nil empty), String.append_assoc, String.append_assoc]
    exact ⟨_, rfl⟩

/-- Rendered objects open with a brace, which no name does. -/
theorem isShorthand_multiline (key : String) (o : ObjectLiteral) :
    isShorthand key (.code o.multiline) = false := by
  rw [isShorthand, Bool.and_eq_false_iff]
  refine or_iff_not_imp_right.mpr fun name => beq_eq_false_iff_ne.mpr ?_
  rintro rfl
  obtain ⟨rest, opened⟩ := exists_multiline_eq o
  have word := IsWord.of_isIdentifier (Bool.not_eq_false _ ▸ name)
  refine word.notMem (d := '\x7b') (by decide) (by decide) ?_
  rw [opened, String.toList_append]
  exact List.mem_append_left _ List.mem_cons_self

/-- The lines of a nested object are those of its rendered text behind the same key. -/
theorem renderedLines_nested (key : String) {o : ObjectLiteral} (h : KeepLines o) :
    renderedLines (Member.property key (.object o)).blocks =
      renderedLines (Member.code key o.multiline).blocks := by
  have code : (Member.code key o.multiline).blocks =
      codeBetween (propertyKey key ++ ": ") o.multiline "," := by
    rw [Member.code, Member.blocks, isShorthand_multiline, if_neg Bool.false_ne_true, Expr.blocks,
      propertyLines]
  have opening : propertyKey key ++ ": \x7b" = propertyKey key ++ ": " ++ "\x7b" := by
    rw [String.append_assoc]
    rfl
  rw [renderedLines_object, code]
  split
  · next empty =>
    have braces : ObjectLiteral.multiline [] = "\x7b\x7d" := by decide +kernel
    have whole : propertyKey key ++ ": \x7b\x7d," =
        propertyKey key ++ ": " ++ "\x7b\x7d" ++ "," := by
      simp only [String.append_assoc]
      rfl
    rw [empty, braces, codeBetween_line (by decide) ⟨['\x7b'], '\x7d', rfl, by decide⟩,
      renderedLines_line, renderedLines_nil, whole]
  · next filled =>
    have moved : ∀ l ∈ (renderedLines (memberBlocks o)).map inward, IsLine l :=
      List.forall_mem_map.mpr fun l hl => isLine_inward (areLines_all o h l hl)
    rw [multiline_eq (memberBlocks_ne_nil filled), codeBetween_lines (by decide) moved (by decide)
      ⟨[], '\x7d', rfl, by decide⟩, renderedLines_lines, opening]
    rfl

/-- It makes no difference to an object whether one of its members is a nested object or the code
that the nested object is rendered as. -/
theorem multiline_nested {o : ObjectLiteral} (h : KeepLines o) (before after : ObjectLiteral)
    (key : String) : ObjectLiteral.multiline (before ++ .property key (.object o) :: after) =
      ObjectLiteral.multiline (before ++ .code key o.multiline :: after) := by
  have filled (m : Member) : memberBlocks (before ++ m :: after) ≠ [] :=
    memberBlocks_ne_nil (List.append_ne_nil_of_right_ne_nil _ (List.cons_ne_nil m after))
  rw [multiline_eq (filled _), multiline_eq (filled _)]
  simp only [memberBlocks_eq_flatMap, List.flatMap_append, List.flatMap_cons, renderedLines_append,
    renderedLines_nested key h]

/-- A template that spans lines is moved in when its text is spliced, and otherwise not. -/
example : ObjectLiteral.multiline [.property "o" (.object [.template "d" "a\nb"])] ≠
    ObjectLiteral.multiline [.code "o" (ObjectLiteral.multiline [.template "d" "a\nb"])] := by
  decide +kernel

/-- An object with members of every kind, among them code and an arrow function with lines of their
own, an empty line, and a line feed that a quoted string holds. -/
def manyKinds : ObjectLiteral := [
  .code "resolve" "call(\x7b\n  a: 1,\n\n\x7d)  ",
  .property "inner" (.object [
    .template "description" "The \x60id\x60",
    .property "run" (.arrow "t" true (.statements ["const a = t;", "", "return a;"])),
    .property "odd key" (.object [])]),
  .property "type" (.array { elements := [.text "a\nb", .code "c"] }),
  .text "line" "d\r\n",
  .spread "query"]

theorem multiline_nested_manyKinds : KeepLines manyKinds ∧
    ObjectLiteral.multiline [.shorthand "data", .property "many" (.object manyKinds)] =
      ObjectLiteral.multiline [.shorthand "data", .code "many" manyKinds.multiline] := by
  have kept : KeepLines manyKinds := by
    simp only [manyKinds, KeepLines, Member.code, Member.template, Member.text,
      Member.KeepsLines, Expr.KeepsLines]
    decide +kernel
  exact ⟨kept, multiline_nested kept [.shorthand "data"] [] "many"⟩

end GraphqlCrud.Script
