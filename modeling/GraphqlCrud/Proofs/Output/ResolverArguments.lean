import GraphqlCrud.Output.ResolverFile
import GraphqlCrud.Proofs.Resolver.References
import GraphqlCrud.Proofs.Script.Code
import GraphqlCrud.Proofs.Script.Declarations
/-!
The lines by which the file of a resolver declares its arguments.
-/
namespace GraphqlCrud.Output.ResolverFile

open Script Text Layout

def typeText : ArgumentType → String
  | .input name false => "Inputs." ++ name
  | .input name true => "[Inputs." ++ name ++ "]"
  | .scalar name => doubleQuoted name

def fieldCall (a : Argument) : String :=
  "t.field(\x7b type: " ++ typeText a.type ++ ", required: " ++ flagText a.isRequired ++ " \x7d)"

theorem fieldCall_eq (a : Argument) : fieldCall a =
    "t.field(\x7b type: " ++ typeText a.type ++ ", required: " ++ flagText a.isRequired ++
      " \x7d)" := rfl

/-- The lines by which the arguments of a resolver are declared. -/
def argumentLines (r : ResolverShape) : List String :=
  ("export const " ++ r.argumentsName ++ " = builder.args((t) => (\x7b") ::
    (r.arguments.map (fun a => "  " ++ a.name ++ ": " ++ fieldCall a ++ ",") ++ ["\x7d));"])

theorem inlineObject_field {code : String} (other : code ≠ "type") (isRequired : Bool) :
    inlineObject [.code "type" code, .flag "required" isRequired] =
      "\x7b type: " ++ code ++ ", required: " ++ flagText isRequired ++ " \x7d" := by
  have opening : "\x7b type: " = "\x7b " ++ ("type" ++ ": ") := by decide
  have middle : ", required: " = ", " ++ "required: " := by decide
  rw [inlineObject_two, inline_code (by decide) other, inline_required, opening, middle]
  simp only [String.append_assoc]

theorem argumentCode_eq (a : Argument) : argumentCode a = fieldCall a := by
  have call {code : String} (other : code ≠ "type") :
      "t.field(" ++ inlineObject [.code "type" code, .flag "required" a.isRequired] ++ ")" =
        "t.field(\x7b type: " ++ code ++ ", required: " ++ flagText a.isRequired ++
          " \x7d)" := by
    have opening : "t.field(\x7b type: " = "t.field(" ++ "\x7b type: " := by decide
    have closing : " \x7d)" = " \x7d" ++ ")" := by decide
    rw [inlineObject_field other, opening, closing]
    simp only [String.append_assoc]
  have other_first {first : Char} {rest : List Char} {code : String}
      (hcode : code.toList = first :: rest) (apart : first ≠ 't') : code ≠ "type" := by
    rintro rfl
    exact apart (List.cons.inj hcode).1.symm
  obtain ⟨name, type, isRequired⟩ := a
  cases type with
  | input input isList =>
    cases isList with
    | false =>
      have first : ("Inputs." ++ input).toList = 'I' :: ("nputs.".toList ++ input.toList) := by
        rw [String.toList_append]
        rfl
      exact call (other_first first (by decide))
    | true =>
      have inline : ArrayLiteral.inline { elements := [.code ("Inputs." ++ input)] } =
          "[Inputs." ++ input ++ "]" := by
        have opening : "[Inputs." = "[" ++ "Inputs." := by decide
        rw [opening]
        simp only [ArrayLiteral.inline, ArrayLiteral.constMark, Element.written, List.map_cons,
          List.map_nil, String.intercalate_singleton, Bool.false_eq_true, if_false,
          String.append_empty, String.append_assoc]
      have first : ("[Inputs." ++ input ++ "]").toList =
          '[' :: ("Inputs.".toList ++ input.toList ++ [']']) := by
        rw [String.toList_append, String.toList_append]
        rfl
      have code := call (other_first first (by decide))
      rw [← inline] at code
      exact code.trans (by rw [inline]; rfl)
  | scalar scalar =>
    have first : (doubleQuoted scalar).toList =
        '"' :: (scalar.toList.flatMap doubleQuotedChar ++ ['"']) := by
      rw [doubleQuoted, String.toList_ofList]
      rfl
    exact call (other_first first (by decide))

theorem toObject_written {members : ObjectLiteral} (filled : members ≠ []) :
    (toObject members).written = "(t) => (" ++ members.multiline ++ ")" := by
  obtain ⟨first, rest, rfl⟩ := List.exists_cons_of_ne_nil filled
  have head : arrowHead "t" false ++ " (" = "(t) => (" := by decide
  rw [toObject, Arrow.written, ArrowBody.written, head]
  rfl

theorem isLine_typeText {type : ArgumentType} (h : ∀ input ∈ type.inputName?, IsWord input) :
    IsLine (typeText type) := by
  cases type with
  | input input isList =>
    have name := (h input rfl).isLine
    cases isList with
    | false => exact IsLine.append (by decide) name
    | true => exact (IsLine.append (by decide) name).append (by decide)
  | scalar scalar => exact isLine_doubleQuoted scalar

theorem isEntry_argument {a : Argument} (name : IsWord a.name)
    (type : ∀ input ∈ a.type.inputName?, IsWord input) : IsEntry (a.name, fieldCall a) where
  other := by
    intro same
    have brace : '(' ∈ (fieldCall a).toList := by
      simp only [fieldCall_eq, String.append_assoc, String.toList_append, List.mem_append]
      exact .inl (by decide)
    have key : fieldCall a = a.name := same
    rw [key] at brace
    exact name.notMem (by decide) (by decide) brace
  line := by
    have opening : IsLine ("t.field(\x7b type: " ++ typeText a.type ++ ", required: ") :=
      (IsLine.append (by decide) (isLine_typeText type)).append (by decide)
    have written : IsLine (fieldCall a) := by
      rw [fieldCall_eq]
      exact (opening.append (isLine_flagText a.isRequired)).append (by decide)
    exact written
  solid := by
    have closing : IsSolid " \x7d)" := ⟨[' ', '\x7d'], ')', by decide, by decide⟩
    have written : IsSolid (fieldCall a) := by
      rw [fieldCall_eq]
      exact closing.append _
    exact written

section

variable {r : ResolverShape} (names : ∀ a ∈ r.arguments, isIdentifier a.name = true)
  (types : ∀ name ∈ r.inputNames, IsWord name)
include names types

theorem isEntry_of_mem {a : Argument} (ha : a ∈ r.arguments) : IsEntry (a.name, fieldCall a) :=
  isEntry_argument (IsWord.of_isIdentifier (names a ha)) fun input hinput =>
    types input (List.mem_filterMap.mpr ⟨a, ha, hinput⟩)

theorem isLine_of_mem {a : Argument} (ha : a ∈ r.arguments) :
    IsLine ("  " ++ a.name ++ ": " ++ fieldCall a ++ ",") := by
  have name := (IsWord.of_isIdentifier (names a ha)).isLine
  have start : IsLine ("  " ++ a.name ++ ": ") :=
    (IsLine.append (by decide) name).append (by decide)
  exact (start.append (isEntry_of_mem names types ha).line).append (by decide)

/-- Each argument is a member on a line of its own. -/
theorem map_inward_arguments :
    (renderedLines (memberBlocks
      (r.arguments.map fun a => Member.code a.name (argumentCode a)))).map inward =
      r.arguments.map fun a => "  " ++ a.name ++ ": " ++ fieldCall a ++ "," := by
  have entries : (r.arguments.map fun a => Member.code a.name (argumentCode a)) =
      (r.arguments.map fun a => (a.name, fieldCall a)).map fun e => .code e.1 e.2 := by
    rw [List.map_map]
    apply List.map_congr_left
    intro a _
    rw [argumentCode_eq, Function.comp_apply]
  have each : ∀ e ∈ r.arguments.map (fun a => (a.name, fieldCall a)), IsEntry e :=
    List.forall_mem_map.mpr fun a ha => isEntry_of_mem names types ha
  rw [entries, renderedLines_entries each, List.map_map, List.map_map]
  apply List.map_congr_left
  intro a ha
  have key : propertyKey a.name = a.name := if_pos (names a ha)
  have named := (IsWord.of_isIdentifier (names a ha)).nonempty
  simp only [Function.comp_apply, key, String.append_assoc]
  rw [inward_of_ne_empty (append_ne_empty named _)]

theorem value_argumentsConstant (filled : r.arguments ≠ []) : (argumentsConstant r).value =
    "\n".intercalate ("builder.args((t) => (\x7b" ::
      ((r.arguments.map fun a => "  " ++ a.name ++ ": " ++ fieldCall a ++ ",") ++
        ["\x7d))"])) := by
  have inner := map_inward_arguments names types
  have some_member : (r.arguments.map fun a => Member.code a.name (argumentCode a)) ≠ [] := by
    simpa using filled
  have blocks : memberBlocks
      (r.arguments.map fun a => Member.code a.name (argumentCode a)) ≠ [] := by
    intro empty
    rw [empty, renderedLines_nil, List.map_nil] at inner
    exact filled (List.map_eq_nil_iff.mp inner.symm)
  have written : (argumentsConstant r).value = "builder.args(" ++
      (toObject (r.arguments.map fun a => Member.code a.name (argumentCode a))).written ++
        ")" := rfl
  have opening : "builder.args(" ++ "(t) => (" = "builder.args((t) => (" := by decide
  have first : "builder.args((t) => (" ++ "\x7b" = "builder.args((t) => (\x7b" := by decide
  have ends : ")" ++ ")" = "))" := by decide
  have last : "\x7d" ++ "))" = "\x7d))" := by decide
  rw [written, toObject_written some_member, multiline_eq blocks, inner, String.append_assoc,
    String.append_assoc, ends, ← String.append_assoc, ← String.append_assoc, opening,
    ← String.intercalate_cons_append, first, ← List.cons_append, intercalate_append_tail, last,
    List.cons_append]

theorem renderedLines_argumentsConstant (filled : r.arguments ≠ []) :
    renderedLines (Declaration.constant (argumentsConstant r)).blocks = argumentLines r := by
  have head : (argumentsConstant r).head = "export const " ++ r.argumentsName ++ " = " := by
    simp [Constant.head, argumentsConstant, exportMark]
  have lines : ∀ line ∈ r.arguments.map (fun a =>
      "  " ++ a.name ++ ": " ++ fieldCall a ++ ","), IsLine line :=
    List.forall_mem_map.mpr fun a ha => isLine_of_mem names types ha
  have solid : IsSolid "\x7d))" := ⟨['\x7d', ')'], ')', by decide, by decide⟩
  have first : " = " ++ "builder.args((t) => (\x7b" = " = builder.args((t) => (\x7b" := by decide
  have last : "\x7d))" ++ ";" = "\x7d));" := by decide
  rw [Declaration.blocks_constant, Constant.blocks, value_argumentsConstant names types filled,
    head, codeBetween_lines (by decide) lines (by decide) solid, renderedLines_lines, argumentLines,
    String.append_assoc, first, last]

end

theorem hasLineBeginning_argumentLines {model : String} (h : IsWord model) (o : Operation)
    (config : Config) :
    HasLineBeginning (file config (ResolverShape.build model o config.crud)).render
      (ended (argumentLines (ResolverShape.build model o config.crud))) := by
  have filled : (ResolverShape.build model o config.crud).arguments ≠ [] := by
    cases o <;> exact List.cons_ne_nil _ _
  have names : ∀ a ∈ (ResolverShape.build model o config.crud).arguments,
      isIdentifier a.name = true := fun _ ha => ResolverShape.isIdentifier_argument ha
  have types : ∀ name ∈ (ResolverShape.build model o config.crud).inputNames, IsWord name := by
    intro name hname
    rw [ResolverShape.inputNames_build] at hname
    obtain ⟨suffix, hsuffix, rfl⟩ := List.mem_map.mp hname
    exact h.append (IsWord.of_isIdentifier (ResolverShape.isIdentifier_suffix hsuffix))
  have declared :
      Declaration.constant (argumentsConstant (ResolverShape.build model o config.crud)) ∈
        (file config (ResolverShape.build model o config.crud)).declarations := List.mem_cons_self
  have begins : HasLineBeginning (Layout.render (Declaration.constant
      (argumentsConstant (ResolverShape.build model o config.crud))).blocks)
        (ended (argumentLines (ResolverShape.build model o config.crud))) := by
    rw [Layout.render_eq_ended, renderedLines_argumentsConstant names types filled]
    simpa only [String.append_empty] using hasLineBeginning_append _ ""
  exact hasLineBeginning_render begins (render_mem_sections declared)

end GraphqlCrud.Output.ResolverFile
