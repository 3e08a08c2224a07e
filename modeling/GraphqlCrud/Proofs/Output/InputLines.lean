import GraphqlCrud.Output.InputTypes
import GraphqlCrud.Proofs.Script.Declarations
import GraphqlCrud.Proofs.Script.Embedding
import GraphqlCrud.Proofs.Text.Framing
/-!
Where the lines of an input stand in the file of input types. They are printed twice over: as the
body of an arrow function, and then within the object that the function is a member of.
-/
namespace GraphqlCrud

namespace Text

/-- A line is among others, and neither the first nor the last of them. -/
def IsInner (line : String) (ls : List String) : Prop :=
  ∃ front back, front ≠ [] ∧ back ≠ [] ∧ ls = front ++ line :: back

variable {line : String} {ls : List String}

theorem isInner_of_mem (h : line ∈ ls) (first last : String) :
    IsInner line (first :: (ls ++ [last])) := by
  obtain ⟨front, back, rfl⟩ := List.append_of_mem h
  exact ⟨first :: front, back ++ [last], by simp, by simp, by simp⟩

theorem ended_append_intercalate (front : List String) {back : List String} (h : back ≠ []) :
    "\n".intercalate (front ++ back) = ended front ++ "\n".intercalate back := by
  induction front with
  | nil => rw [List.nil_append, ended_nil, String.empty_append]
  | cons l front ih =>
    rw [List.cons_append, String.intercalate_cons_of_ne_nil (by simp [h]), ih, ended_cons]
    simp only [String.append_assoc]

theorem lines_ended_append (unbroken : '\n' ∉ line.toList) (solid : IsSolid line)
    (front : List String) (rest : String) :
    lines (ended front ++ (line ++ "\n" ++ rest)) = lines (ended front) ++ line :: lines rest := by
  have single : lines (line ++ "\n") = [line] := by
    have one : line ++ "\n" = ended [line] := by simp
    rw [one, lines_ended_unbroken (List.forall_mem_singleton.mpr unbroken), List.map_singleton,
      solid.withoutReturn_eq]
  rw [lines_append (endsLine_ended front), lines_append (.inr ⟨line, rfl⟩), single,
    List.singleton_append]

theorem lines_ne_nil {s : String} (h : s ≠ "") : lines s ≠ [] := by
  obtain ⟨init, last, hinit, hlast, rfl⟩ := exists_unbroken s
  rw [lines_intercalate_unbroken hinit hlast]
  intro none
  obtain ⟨front, ending⟩ := List.append_eq_nil_iff.mp none
  rw [List.map_eq_nil_iff] at front
  split at ending
  · next empty => exact h (by rw [front, empty]; rfl)
  · cases ending

/-- A line is read back wherever it was written. -/
theorem mem_lines_ended (unbroken : '\n' ∉ line.toList) (solid : IsSolid line) (h : line ∈ ls) :
    line ∈ lines (ended ls) := by
  obtain ⟨front, back, rfl⟩ := List.append_of_mem h
  rw [ended_append, ended_cons, lines_ended_append unbroken solid]
  exact List.mem_append_right _ List.mem_cons_self

theorem IsInner.lines (h : IsInner line ls) (unbroken : '\n' ∉ line.toList) (solid : IsSolid line)
    (whole : IsSolid ("\n".intercalate ls)) : IsInner line (lines ("\n".intercalate ls)) := by
  obtain ⟨front, back, before, behind, rfl⟩ := h
  have parts : "\n".intercalate (front ++ line :: back) =
      ended front ++ (line ++ "\n" ++ "\n".intercalate back) := by
    rw [ended_append_intercalate front (List.cons_ne_nil line back),
      String.intercalate_cons_of_ne_nil behind]
  refine ⟨Text.lines (ended front), Text.lines ("\n".intercalate back), lines_ne_nil ?_,
    lines_ne_nil ?_, by rw [parts, lines_ended_append unbroken solid]⟩
  · obtain ⟨first, front, rfl⟩ := List.exists_cons_of_ne_nil before
    rw [ended_cons]
    exact append_ne_empty (by simp) _
  · obtain ⟨mid, last, rfl⟩ := (List.eq_nil_or_concat' back).resolve_left behind
    rw [← List.cons_append, ← List.append_assoc] at whole
    exact whole.of_intercalate.intercalate.ne_empty

end Text

namespace Script

open Layout Text

/-- Splicing code in joins something to its first line and to its last one only. -/
theorem mem_codeBetween_of_isInner {line code : String} (h : IsInner line (lines code))
    (solid : IsSolid code) (head tail : String) :
    line ∈ renderedLines (codeBetween head code tail) := by
  obtain ⟨front, back, before, behind, read⟩ := h
  obtain ⟨first, front, rfl⟩ := List.exists_cons_of_ne_nil before
  obtain ⟨mid, last, rfl⟩ := (List.eq_nil_or_concat' back).resolve_left behind
  have parts : lines (trimEnd code) = first :: ((front ++ line :: mid) ++ [last]) := by
    rw [solid.trimEnd_eq, read]
    simp
  rw [codeBetween_of_lines parts, renderedLines_lines]
  simp

end Script

namespace Output.InputTypes

open Script Schema Inputs Layout Text

/-- The declaration of an input as the file has it. -/
def declarationText (d : InputDeclaration) : String :=
  Layout.render (Declaration.constant (inputConstant d)).blocks

theorem isSolid_of_mem_inputLines {d : InputDeclaration} {line : String}
    (h : line ∈ inputLines d) : IsSolid line := by
  have ending : IsSolid ")," := ⟨[')'], ',', by decide, by decide⟩
  have brace : IsSolid " \x7d)," := ending.append " \x7d"
  rw [inputLines] at h
  split at h
  · obtain rfl := List.mem_singleton.mp h
    exact brace.append _
  · obtain ⟨f, -, rfl⟩ := List.mem_map.mp h
    rw [fieldLine]
    split <;> exact ending.append _

variable {d : InputDeclaration} {line : String}

theorem inputLines_ne_nil (d : InputDeclaration) : inputLines d ≠ [] := by
  rw [inputLines]
  split
  · exact List.cons_ne_nil _ _
  · next filled => simpa [InputDeclaration.isEmpty] using filled

/-- The function that gives the fields of an input. -/
def fieldsFunction (d : InputDeclaration) : String :=
  "\n".intercalate ("(t) => (\x7b" :: ((inputLines d).map ("  " ++ ·) ++ ["\x7d)"]))

theorem fieldsFunction_eq (d : InputDeclaration) :
    arrowHead "t" false ++ " " ++
      ("(\x7b\n" ++ "\n".intercalate ((inputLines d).map ("  " ++ ·)) ++ "\n\x7d)") =
      fieldsFunction d := by
  have filled : (inputLines d).map ("  " ++ ·) ≠ [] := by simpa using inputLines_ne_nil d
  have first : arrowHead "t" false ++ " " ++ "(\x7b\n" = "(t) => (\x7b" ++ "\n" := by decide
  have last : "\n\x7d)" = "\n" ++ "\x7d)" := by decide
  rw [fieldsFunction, String.intercalate_cons_of_ne_nil (by simp),
    intercalate_append_singleton filled, ← first, last]
  simp only [String.append_assoc]

theorem isSolid_fieldsFunction (d : InputDeclaration) : IsSolid (fieldsFunction d) := by
  have ending : IsSolid "\x7d)" := ⟨['\x7d'], ')', by decide, by decide⟩
  rw [fieldsFunction, ← List.cons_append]
  exact ending.intercalate

/-- The members of the object that implements an input. -/
theorem mem_fieldsMember (h : line ∈ inputLines d) (unbroken : '\n' ∉ line.toList) :
    "  " ++ line ∈ renderedLines (codeBetween "fields: " (fieldsFunction d) ",") := by
  have inner : IsInner ("  " ++ line)
      ("(t) => (\x7b" :: ((inputLines d).map ("  " ++ ·) ++ ["\x7d)"])) :=
    isInner_of_mem (List.mem_map_of_mem h) _ _
  refine mem_codeBetween_of_isInner ?_ (isSolid_fieldsFunction d) _ _
  exact inner.lines (notMem_append (by decide) unbroken)
    ((isSolid_of_mem_inputLines h).append _) (isSolid_fieldsFunction d)

theorem blocks_fieldsMember (body : String) :
    memberBlocks [.property "fields" (arrowTo "t" body)] =
      codeBetween "fields: " (arrowHead "t" false ++ " " ++ body) "," := by
  have long : isShorthand "fields" (arrowTo "t" body) = false := rfl
  have head : "fields: " = propertyKey "fields" ++ ": " := by decide
  rw [memberBlocks, memberBlocks, List.append_nil, Member.blocks, long, if_neg Bool.false_ne_true,
    arrowTo, Arrow.expr, Expr.blocks, propertyLines, ArrowBody.written, head]

theorem exists_value_inputConstant (d : InputDeclaration) :
    ∃ start, (inputConstant d).value = "\n".intercalate ((start ++ "\x7b") ::
      ((renderedLines (codeBetween "fields: " (fieldsFunction d) ",")).map inward ++
        ["\x7d)"])) := by
  obtain ⟨start, value⟩ : ∃ start, (inputConstant d).value = start ++
      (ObjectLiteral.multiline [.property "fields" (arrowTo "t" ("(\x7b\n" ++
        "\n".intercalate ((inputLines d).map ("  " ++ ·)) ++ "\n\x7d)"))] ++ ")") := by
    simp only [inputConstant, CallChain.inline, List.map_cons, List.map_nil, String.join_cons,
      String.join_nil, MethodCall.written, String.intercalate_singleton, String.append_empty,
      ← String.append_assoc]
    exact ⟨_, rfl⟩
  refine ⟨start, ?_⟩
  have blocks := blocks_fieldsMember ("(\x7b\n" ++
    "\n".intercalate ((inputLines d).map ("  " ++ ·)) ++ "\n\x7d)")
  rw [fieldsFunction_eq] at blocks
  have closing : "\x7d" ++ ")" = "\x7d)" := by decide
  rw [value, multiline_eq (by rw [blocks]; exact codeBetween_ne_nil _ _ _), blocks,
    ← List.cons_append, intercalate_append_tail, closing, List.cons_append,
    ← String.intercalate_cons_append]

/-- Every line of an input stands in its declaration, two levels in. -/
theorem mem_lines_declarationText (h : line ∈ inputLines d) (unbroken : '\n' ∉ line.toList) :
    "    " ++ line ∈ lines (declarationText d) := by
  have filled := (isSolid_of_mem_inputLines h).ne_empty
  have solid : IsSolid ("    " ++ line) := (isSolid_of_mem_inputLines h).append _
  have whole : '\n' ∉ ("    " ++ line).toList := notMem_append (by decide) unbroken
  have inside : inward ("  " ++ line) = "    " ++ line := by
    rw [← inward_of_ne_empty filled, inward_inward filled]
  obtain ⟨start, value⟩ := exists_value_inputConstant d
  have member := List.mem_map_of_mem (f := inward) (mem_fieldsMember h unbroken)
  rw [inside] at member
  have ending : IsSolid "\x7d)" := ⟨['\x7d'], ')', by decide, by decide⟩
  have ended : IsSolid (inputConstant d).value := by
    rw [value, ← List.cons_append]
    exact ending.intercalate
  rw [declarationText, render_eq_ended, Declaration.blocks_constant, Constant.blocks]
  refine mem_lines_ended whole solid (mem_codeBetween_of_isInner ?_ ended _ _)
  rw [value] at ended ⊢
  exact (isInner_of_mem member _ _).lines whole solid ended

variable {document : Document} {config : Config}

/-- The file has every line of an input in the declaration of that input. -/
theorem writesLine_of_mem_inputLines (declared : d ∈ select document config)
    (h : line ∈ inputLines d) (unbroken : '\n' ∉ line.toList) :
    WritesLine (file document config) d.name ("    " ++ line) := by
  have member : Declaration.constant (inputConstant d) ∈ (file document config).declarations :=
    List.mem_cons_of_mem _ (List.mem_append_right _ (List.mem_map_of_mem declared))
  exact ⟨_, render_mem_sections member, exists_render_constant rfl rfl,
    mem_lines_declarationText h unbroken⟩

end Output.InputTypes
end GraphqlCrud
