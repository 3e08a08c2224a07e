import Mathlib.Data.List.Basic
import GraphqlCrud.Proofs.Layout.Rendering
import GraphqlCrud.Proofs.Script.Literal
import GraphqlCrud.Proofs.Text.Returns
import GraphqlCrud.Script.Expression
/-!
The lines of code that is spliced in, and those of object literals.
-/
namespace GraphqlCrud.Script

open Layout Text

theorem codeBetween_line {code : String} (line : IsLine code) (solid : IsSolid code)
    (head tail : String) : codeBetween head code tail = [.line (head ++ code ++ tail)] := by
  have read : lines (trimEnd code) = [code] := by
    rw [solid.trimEnd_eq]
    have single : code = "\n".intercalate ([] ++ [code]) := by simp
    rw [single, lines_intercalate_solid (by simp) line solid, ← single]
    rfl
  rw [codeBetween, read]

theorem codeBetween_ne_nil (head code tail : String) : codeBetween head code tail ≠ [] := by
  unfold codeBetween
  split <;> exact List.cons_ne_nil _ _

/-- Of code that spans lines the first is joined to the head and the last to the tail. -/
theorem codeBetween_of_lines {code first last : String} {mid : List String}
    (read : lines (trimEnd code) = first :: (mid ++ [last])) (head tail : String) :
    codeBetween head code tail = ((head ++ first) :: (mid ++ [last ++ tail])).map .line := by
  have several : mid ++ [last] ≠ [] := by simp
  unfold codeBetween
  rw [read]
  split
  · next impossible => cases impossible
  · next impossible =>
    exact absurd (List.cons.inj impossible).2 several
  · next f rest _ same =>
    obtain ⟨rfl, rfl⟩ := List.cons.inj same
    simp

theorem codeBetween_lines {first last : String} {mid : List String} (hfirst : IsLine first)
    (hmid : ∀ l ∈ mid, IsLine l) (hlast : IsLine last) (solid : IsSolid last)
    (head tail : String) :
    codeBetween head ("\n".intercalate (first :: (mid ++ [last]))) tail =
      ((head ++ first) :: (mid ++ [last ++ tail])).map .line := by
  refine codeBetween_of_lines ?_ head tail
  have solid_whole : IsSolid ("\n".intercalate (first :: mid ++ [last])) := solid.intercalate
  rw [← List.cons_append, solid_whole.trimEnd_eq]
  exact lines_intercalate_solid (List.forall_mem_cons.mpr ⟨hfirst, hmid⟩) hlast solid

/-- What is true of the head, the tail and each line of the code, and stays so when texts are joined,
is true of each rendered line. -/
theorem forall_mem_codeBetween {P : String → Prop} (join : ∀ {s t}, P s → P t → P (s ++ t))
    {head code tail : String} (hhead : P head) (each : ∀ l ∈ lines (trimEnd code), P l)
    (htail : P tail) : ∀ l ∈ renderedLines (codeBetween head code tail), P l := by
  unfold codeBetween
  split
  · simpa using join hhead htail
  · next only same =>
    rw [same, List.forall_mem_singleton] at each
    simpa using join (join hhead each) htail
  · next first rest _ same =>
    obtain ⟨hfirst, hrest⟩ := List.forall_mem_cons.mp (same ▸ each)
    rw [renderedLines_line, renderedLines_append, renderedLines_lines, List.forall_mem_cons,
      List.forall_mem_append]
    refine ⟨join hhead hfirst, fun l hl => hrest l (List.dropLast_subset rest hl), ?_⟩
    cases last : rest.getLast? with
    | none => exact nofun
    | some l => simpa using join (hrest l (List.mem_of_getLast? last)) htail

/-- No rendered line of code holds a line feed. -/
theorem unbroken_codeBetween {head tail : String} (hhead : '\n' ∉ head.toList)
    (htail : '\n' ∉ tail.toList) (code : String) :
    ∀ l ∈ renderedLines (codeBetween head code tail), '\n' ∉ l.toList :=
  forall_mem_codeBetween notMem_append hhead (unbroken_of_mem_lines _) htail

/-- Code keeps its line feeds, but not the carriage returns that stand before them. -/
theorem text_codeBetween {code : String} (solid : IsSolid code) (head tail : String) :
    ended (renderedLines (codeBetween head code tail)) =
      head ++ unreturned code ++ tail ++ "\n" := by
  have read : "\n".intercalate (lines (trimEnd code)) = unreturned code := by
    rw [solid.trimEnd_eq, solid.intercalate_lines]
  rw [← read]
  rcases List.eq_nil_or_concat' (lines (trimEnd code)) with none | ⟨ls, last, parts⟩
  · simp [codeBetween, none]
  · rw [parts]
    cases ls with
    | nil => simp [codeBetween, parts]
    | cons first mid =>
      rw [codeBetween_of_lines parts, renderedLines_lines, ← List.cons_append,
        ended_append_singleton, ← intercalate_append_tail, List.cons_append,
        String.intercalate_cons_append, List.cons_append]

theorem memberBlocks_eq_flatMap (o : ObjectLiteral) : memberBlocks o = o.flatMap Member.blocks := by
  induction o with
  | nil => simp [memberBlocks]
  | cons m rest ih => simp [memberBlocks, ih]

/-- An object literal stands in its braces, with its members one level in. -/
theorem multiline_eq {o : ObjectLiteral} (filled : memberBlocks o ≠ []) :
    o.multiline =
      "\n".intercalate ("\x7b" :: ((renderedLines (memberBlocks o)).map inward ++ ["\x7d"])) := by
  have closing : IsSolid "\x7d" := ⟨[], '\x7d', rfl, by decide⟩
  obtain ⟨first, rest, hm⟩ := List.exists_cons_of_ne_nil filled
  have blocks : ObjectLiteral.blocks o = [.group "\x7b" (memberBlocks o) (some "\x7d")] := by
    rw [ObjectLiteral.blocks, hm, objectBlocks]
    simp
  rw [ObjectLiteral.multiline, blocks, render_eq_ended, renderedLines_group, renderedLines_nil,
    ← List.cons_append, dropFinalLineFeeds_ended closing, List.cons_append]

theorem multiline_eq_ended {o : ObjectLiteral} (filled : memberBlocks o ≠ []) :
    o.multiline =
      "\x7b" ++ "\n" ++ ended ((renderedLines (memberBlocks o)).map inward) ++ "\x7d" := by
  have closing : ("\x7d" : String) = "" ++ "\x7d" := by decide
  rw [multiline_eq filled, ← List.cons_append, closing, ← intercalate_append_tail,
    ← ended_eq_intercalate, ended_cons, String.empty_append]

theorem blocks_code {key value : String} (other : value ≠ key) (line : IsLine value)
    (solid : IsSolid value) :
    (Member.code key value).blocks = [.line (propertyKey key ++ ": " ++ value ++ ",")] := by
  have written : isShorthand key (.code value) = false := by simp [isShorthand, other]
  rw [Member.code, Member.blocks, written, if_neg Bool.false_ne_true, Expr.blocks, propertyLines,
    codeBetween_line line solid]

theorem inline_property {key : String} {value : Expr} (hkey : isIdentifier key = true)
    (long : isShorthand key value = false) :
    (Member.property key value).inline = key ++ ": " ++ value.inline := by
  have written : propertyKey key = key := if_pos hkey
  rw [Member.inline, long, if_neg Bool.false_ne_true, written]

theorem inline_code {key value : String} (hkey : isIdentifier key = true) (other : value ≠ key) :
    (Member.code key value).inline = key ++ ": " ++ value := by
  have long : isShorthand key (.code value) = false := by simp [isShorthand, other]
  rw [Member.code, inline_property hkey long, Expr.inline]

theorem inlineMembers_eq_map (o : ObjectLiteral) : inlineMembers o = o.map Member.inline := by
  induction o with
  | nil => rw [inlineMembers, List.map_nil]
  | cons m rest ih => rw [inlineMembers, ih, List.map_cons]

/-- On one line every member but the last is followed by a comma. -/
theorem inlineObject_concat (first : ObjectLiteral) (m : Member) : inlineObject (first ++ [m]) =
    "\x7b " ++ String.join (first.map fun m => m.inline ++ ", ") ++ m.inline ++ " \x7d" := by
  have members : inlineObject (first ++ [m]) =
      "\x7b " ++ ", ".intercalate ((first ++ [m]).map Member.inline) ++ " \x7d" := by
    cases h : first ++ [m] with
    | nil => simp at h
    | cons head rest => rw [inlineObject, inlineMembers_eq_map, List.map_cons]
  rw [members, List.map_append, List.map_singleton, intercalate_concat, List.map_map,
    ← String.append_assoc]
  rfl

theorem inlineObject_two (a b : Member) :
    inlineObject [a, b] = "\x7b " ++ a.inline ++ ", " ++ b.inline ++ " \x7d" := by
  have pair : inlineObject [a, b] = inlineObject ([a] ++ [b]) := rfl
  rw [pair, inlineObject_concat]
  simp [String.append_assoc]

def flagText : Bool → String
  | true => "true"
  | false => "false"

theorem isLine_flagText (value : Bool) : IsLine (flagText value) := by
  cases value <;> decide

theorem inline_flag {key : String} (hkey : isIdentifier key = true) (other : ∀ b, flagText b ≠ key)
    (value : Bool) : (Member.flag key value).inline = key ++ ": " ++ flagText value := by
  have code : Member.flag key value = .code key (flagText value) := by
    cases value <;> rfl
  rw [code, inline_code hkey (other value)]

theorem inline_required (isRequired : Bool) :
    (Member.flag "required" isRequired).inline = "required: " ++ flagText isRequired := by
  rw [inline_flag (by decide) (by decide)]
  rfl

/-- A key with code for its value, where the code is a line other than the key. -/
structure IsEntry (e : String × String) : Prop where
  other : e.2 ≠ e.1
  line : IsLine e.2
  solid : IsSolid e.2

theorem renderedLines_entries {entries : List (String × String)} (h : ∀ e ∈ entries, IsEntry e) :
    renderedLines (memberBlocks (entries.map fun e => .code e.1 e.2)) =
      entries.map fun e => propertyKey e.1 ++ ": " ++ e.2 ++ "," := by
  have blocks : memberBlocks (entries.map fun e => .code e.1 e.2) =
      (entries.map fun e => propertyKey e.1 ++ ": " ++ e.2 ++ ",").map .line := by
    rw [memberBlocks_eq_flatMap, List.flatMap_map, List.map_map, List.map_eq_flatMap]
    apply List.flatMap_congr
    intro e he
    exact blocks_code (h e he).other (h e he).line (h e he).solid
  rw [blocks, renderedLines_lines]

theorem renderedLines_object (key : String) (members : ObjectLiteral) :
    renderedLines (Member.property key (.object members)).blocks =
      if members = [] then [propertyKey key ++ ": \x7b\x7d,"]
      else (propertyKey key ++ ": \x7b") ::
        ((renderedLines (memberBlocks members)).map inward ++ ["\x7d,"]) := by
  have written : isShorthand key (.object members) = false := rfl
  rw [Member.blocks, written, if_neg Bool.false_ne_true]
  cases members with
  | nil => rw [Expr.blocks, if_pos rfl, renderedLines_line, renderedLines_nil]
  | cons m rest =>
    rw [Expr.blocks, if_neg (List.cons_ne_nil m rest), renderedLines_group, renderedLines_nil,
      memberBlocks]

end GraphqlCrud.Script
