import GraphqlCrud.Proofs.Output.InputClosure
import GraphqlCrud.Proofs.Script.LiteralValues
/-!
The scalars that the file of input types declares, and those that its inputs refer to. A scalar is
declared if any type that some input accepts is that scalar; a field refers to the one type that it
prefers, under a name of its own for one of them. The two agree on every schema.
-/
namespace GraphqlCrud.Output.InputTypes

open Script Schema Inputs
open Text (IsLine)

/-- The scalar that a constant declares: the name it is exported under, and its name in the
schema. -/
def scalar? : Declaration → Option (String × String)
  | .constant c => do
    let exported ← Declaration.constantName? (.constant c)
    let arguments ← Text.dropLeading? "builder.scalarType(" c.value
    let (name, _) ← readString? arguments.toList
    return (exported, String.ofList name)
  | _ => none

def declaredScalars (f : SourceFile) : List (String × String) := f.declarations.filterMap scalar?

/-- The scalars that inputs can refer to, in the order of their declarations. One of them is not
exported under its own name, which is that of a global. -/
def scalarExports : List (String × String) := [
  ("DateTime", "DateTime"), ("Decimal", "Decimal"), ("Bytes", "Bytes"), ("Json", "Json"),
  ("Bigint", "BigInt")]

/-- Some field of an input accepts the scalar of that name. -/
def AcceptsScalar (document : Document) (name : String) : Prop :=
  ∃ input ∈ document.inputs, ∃ f ∈ input.fields, ∃ t ∈ f.accepts,
    t.location = .scalar ∧ t.name = name

instance (document : Document) (name : String) : Decidable (AcceptsScalar document name) :=
  inferInstanceAs (Decidable (∃ input ∈ document.inputs, ∃ f ∈ input.fields, ∃ t ∈ f.accepts,
    t.location = .scalar ∧ t.name = name))

/-- The scalars to declare: each of these that inputs accept and the configuration does not leave to
others, and the placeholder if an input is declared without fields. -/
def neededScalars (document : Document) (config : Config) : List (String × String) :=
  (scalarExports.filter fun s =>
    AcceptsScalar document s.2 ∧ s.2 ∉ config.inputs.excludedScalars) ++
  if (∃ d ∈ select document config, d.fields = []) ∧
      placeholder ∉ config.inputs.excludedScalars then
    [(placeholder, placeholder)]
  else []

/-- The line of a field whose type is declared under the name. -/
def referenceLine (f : InputField) (exported : String) (isList : Bool) : String :=
  propertyKey f.name ++ ": t.field(\x7b required: " ++ flagText f.isRequired ++ ", type: " ++
    typeCode exported isList ++ " \x7d),"

/-- The line that stands in an input for the fields it does not have. -/
def placeholderLine : String := "_: t.field(\x7b type: NEVER \x7d),"

/-- What inputs refer to is what is declared. -/
structure ScalarsAgree (document : Document) (config : Config) : Prop where
  declared : declaredScalars (file document config) = neededScalars document config
  exported : ∀ s ∈ declaredScalars (file document config),
    Declares (file document config).render s.1
  reference : ∀ c ∈ chosen document, ∀ f, IsKeptField document config c f →
    ∀ t, f.mainType? = some t → t.location = .scalar →
    ∀ name, (name, t.name) ∈ scalarExports →
      referenceLine f name t.isList ∈ inputLines (declare document config c.1 c.2) ∧
      WritesLine (file document config) c.2 ("    " ++ referenceLine f name t.isList) ∧
      ((name, t.name) ∈ declaredScalars (file document config) ∨
        t.name ∈ config.inputs.excludedScalars)
  standIn : ∀ d ∈ select document config, placeholderLine ∈ inputLines d ↔ d.fields = []
  standInWritten : ∀ d ∈ select document config, d.fields = [] →
    WritesLine (file document config) d.name ("    " ++ placeholderLine)
  /-- Another use of the placeholder's name is one of a type that the schema calls so. -/
  placeholderName : ∀ c ∈ chosen document,
    placeholder ∈ (declare document config c.1 c.2).usedNames placeholder ↔
      (declare document config c.1 c.2).fields = [] ∨
        ∃ f t, IsKeptField document config c f ∧ f.mainType? = some t ∧
          declaredName t.name = placeholder

variable {document : Document} {config : Config}

/-! Declarations -/

theorem scalar?_constant (s : ScalarDeclaration) :
    scalar? (.constant s.constant) = some (s.exportName, s.schemaName) := by
  obtain ⟨rest, value⟩ : ∃ rest, s.constant.value =
      "builder.scalarType(" ++ (singleQuoted s.schemaName ++ rest) := by
    simp only [ScalarDeclaration.constant, String.append_assoc]
    exact ⟨_, rfl⟩
  have read := readsAs_singleQuoted s.schemaName rest.toList
  have name : Declaration.constantName? (.constant s.constant) = some s.exportName := rfl
  rw [scalar?, name, value, Text.dropLeading?_append]
  simp only [Option.bind_eq_bind, Option.bind_some, String.toList_append, read, Option.pure_def,
    String.ofList_toList]

/-- The value of the constant is that of another call. -/
theorem scalar?_eq_none {c : Constant} (call : String) {rest : String}
    (value : c.value = call ++ rest)
    (shorter : ¬ "builder.scalarType(".toList <+: call.toList)
    (longer : ¬ call.toList <+: "builder.scalarType(".toList) : scalar? (.constant c) = none := by
  have other : Text.dropLeading? "builder.scalarType(" c.value = none := by
    rw [Option.eq_none_iff_forall_not_mem]
    intro arguments found
    have start := congrArg String.toList (value.symm.trans (Text.dropLeading?_eq_some.mp found))
    rw [String.toList_append, String.toList_append] at start
    rcases List.prefix_or_prefix_of_prefix (List.prefix_append _ _) ⟨_, start⟩ with h | h
    · exact shorter h
    · exact longer h
  rw [scalar?, other]
  cases Declaration.constantName? (.constant c) <;> rfl

theorem scalar?_enumConstant (e : Enumeration) : scalar? (.constant (enumConstant e)) = none := by
  apply scalar?_eq_none "builder.enumType("
  · simp only [enumConstant, String.append_assoc]
    rfl
  · decide
  · decide

theorem scalar?_inputConstant (d : InputDeclaration) :
    scalar? (.constant (inputConstant d)) = none := by
  apply scalar?_eq_none ("builder" ++ ("." ++ "inputRef"))
  · simp only [inputConstant, CallChain.inline, List.map_cons, String.join_cons,
      MethodCall.written, String.append_assoc]
    rfl
  · decide
  · decide

theorem scalarExports_eq :
    scalarExports = SpecialScalar.all.map fun s => (exportName s, s.name) := by
  decide

theorem isUsedIn_iff {s : SpecialScalar} :
    s.isUsedIn document.inputs = true ↔ AcceptsScalar document s.name := by
  simp only [SpecialScalar.isUsedIn, AcceptsScalar, List.any_eq_true, Bool.and_eq_true, beq_iff_eq]

theorem needsPlaceholder_iff :
    needsPlaceholder document config = true ↔ ∃ d ∈ select document config, d.fields = [] := by
  simp only [needsPlaceholder, List.any_eq_true, InputDeclaration.isEmpty, List.isEmpty_iff]

theorem declaredScalars_file :
    declaredScalars (file document config) =
      (scalars document config (needsPlaceholder document config)).map
        fun s => (s.exportName, s.schemaName) := by
  have enums : document.enums.filterMap (fun e => scalar? (.constant (enumConstant e))) = [] :=
    List.filterMap_eq_nil_iff.mpr fun e _ => scalar?_enumConstant e
  have inputs : (select document config).filterMap
      (fun d => scalar? (.constant (inputConstant d))) = [] :=
    List.filterMap_eq_nil_iff.mpr fun d _ => scalar?_inputConstant d
  have helpers : scalar? (.code helperTypes) = none := rfl
  simp only [declaredScalars, file, List.filterMap_cons, helpers, List.filterMap_append,
    List.filterMap_map, Function.comp_def, enums, inputs, List.append_nil, scalar?_constant]
  exact congrFun List.filterMap_eq_map _

theorem declaredScalars_eq :
    declaredScalars (file document config) = neededScalars document config := by
  rw [declaredScalars_file, scalars, List.map_append, neededScalars, scalarExports_eq,
    List.filter_map, SpecialScalar.usedIn, List.filter_filter, List.map_map]
  congr 1
  · have special : (fun s : ScalarDeclaration => (s.exportName, s.schemaName)) ∘ .ofScalar =
        fun s : SpecialScalar => (exportName s, s.name) := by
      funext s
      cases s <;> rfl
    have condition (s : SpecialScalar) :
        (!config.inputs.excludesScalar s.name && s.isUsedIn document.inputs) =
          decide (AcceptsScalar document s.name ∧ s.name ∉ config.inputs.excludedScalars) := by
      rw [Bool.eq_iff_iff, decide_eq_true_iff, ← isUsedIn_iff, and_comm]
      simp [InputsConfig.excludesScalar]
    rw [special, funext condition]
    rfl
  · have condition : (needsPlaceholder document config &&
        !config.inputs.excludesScalar placeholder) = true ↔
        (∃ d ∈ select document config, d.fields = []) ∧
          placeholder ∉ config.inputs.excludedScalars := by
      rw [Bool.and_eq_true, needsPlaceholder_iff]
      simp [InputsConfig.excludesScalar]
    split
    · next needed =>
      rw [if_pos (condition.mp needed)]
      rfl
    · next spared =>
      rw [if_neg fun both => spared (condition.mpr both)]
      rfl

theorem exported_of_mem_declaredScalars {s : String × String}
    (h : s ∈ declaredScalars (file document config)) :
    Declares (file document config).render s.1 := by
  obtain ⟨d, hd, scalar⟩ := List.mem_filterMap.mp h
  apply declares_of_mem_constantNames
  refine List.mem_filterMap.mpr ⟨d, hd, ?_⟩
  cases d with
  | constant c =>
    obtain ⟨exported, named, later⟩ := Option.bind_eq_some_iff.mp scalar
    obtain ⟨arguments, -, read⟩ := Option.bind_eq_some_iff.mp later
    obtain ⟨literal, -, pair⟩ := Option.bind_eq_some_iff.mp read
    rw [named, ← Option.some.inj pair]
  | _ => cases scalar

/-! References -/

theorem fieldLine_mem_inputLines {d : InputDeclaration} {f : FieldDeclaration} (h : f ∈ d.fields) :
    fieldLine f ∈ inputLines d := by
  have filled : d.isEmpty = false := List.isEmpty_eq_false_iff.mpr (List.ne_nil_of_mem h)
  rw [inputLines, filled, if_neg Bool.false_ne_true]
  exact List.mem_map_of_mem h

theorem referenceLine_mem_inputLines {c : InputType × String} {f : InputField}
    (kept : IsKeptField document config c f) {t : TypeRef} (main : f.mainType? = some t)
    {name : String} (special : (name, t.name) ∈ scalarExports) :
    referenceLine f name t.isList ∈ inputLines (declare document config c.1 c.2) := by
  have names : ∀ s ∈ scalarExports,
      shorthand? s.2 = none ∧ declaredName s.2 = s.1 ∧ s.1 ≠ "type" := by decide +kernel
  obtain ⟨long, renamed, other⟩ := names _ special
  have declared : declareField? config c.2 (owner? document c.2) f =
      some { name := f.name, isRequired := f.isRequired, type := .named name t.isList } := by
    rw [declareField?, main, Option.map_some, fieldType_of_long long, renamed]
  have line := fieldLine_mem_inputLines (mem_fields_declare.mpr ⟨f, kept, declared⟩)
  rw [fieldLine_named rfl other] at line
  exact line

theorem isLine_referenceLine {name schemaName : String} (special : (name, schemaName) ∈ scalarExports)
    (f : InputField) (isList : Bool) : IsLine (referenceLine f name isList) := by
  have codes : ∀ s ∈ scalarExports, ∀ isList, IsLine (typeCode s.1 isList) := by decide +kernel
  have head : IsLine (propertyKey f.name ++ ": t.field(\x7b required: " ++ flagText f.isRequired) :=
    ((isLine_propertyKey f.name).append (by decide)).append (isLine_flagText f.isRequired)
  exact ((head.append (by decide)).append (codes _ special isList)).append (by decide)

theorem mem_declaredScalars_or_excluded {input : InputType} (member : input ∈ document.inputs)
    {f : InputField} (field : f ∈ input.fields) {t : TypeRef} (main : f.mainType? = some t)
    (location : t.location = .scalar) {name : String} (special : (name, t.name) ∈ scalarExports) :
    (name, t.name) ∈ declaredScalars (file document config) ∨
      t.name ∈ config.inputs.excludedScalars := by
  by_cases excluded : t.name ∈ config.inputs.excludedScalars
  · exact .inr excluded
  · have accepted : AcceptsScalar document t.name :=
      ⟨input, member, f, field, t, InputField.mem_of_mainType? main, location, rfl⟩
    rw [declaredScalars_eq, neededScalars]
    refine .inl (List.mem_append_left _ (List.mem_filter.mpr ⟨special, ?_⟩))
    exact decide_eq_true ⟨accepted, excluded⟩

/-! The placeholder -/

theorem exists_inlineObject_required (isRequired : Bool) (later : ObjectLiteral) :
    ∃ rest, inlineObject (.flag "required" isRequired :: later) = "\x7b required: " ++ rest := by
  have opening : "\x7b required: " = "\x7b " ++ "required: " := by decide
  rw [inlineObject, inline_required, opening]
  cases inlineMembers later with
  | nil =>
    rw [String.intercalate_singleton]
    simp only [String.append_assoc]
    exact ⟨_, rfl⟩
  | cons second others =>
    rw [String.intercalate_cons_cons]
    simp only [String.append_assoc]
    exact ⟨_, rfl⟩

/-- Every field says whether it is required. -/
theorem required_occurs_fieldLine (f : FieldDeclaration) :
    Text.occurs "\x7b required: " (fieldLine f) = true := by
  obtain ⟨start, later, finish, line⟩ : ∃ start later finish, fieldLine f =
      start ++ inlineObject (.flag "required" f.isRequired :: later) ++ finish := by
    unfold fieldLine
    split
    · exact ⟨_, _, _, rfl⟩
    · exact ⟨_, _, _, rfl⟩
  obtain ⟨rest, object⟩ := exists_inlineObject_required f.isRequired later
  rw [Text.occurs_iff, line, object]
  refine ⟨start.toList, rest.toList ++ finish.toList, ?_⟩
  simp only [String.toList_append, List.append_assoc]

theorem placeholderLine_mem_inputLines_iff {d : InputDeclaration} :
    placeholderLine ∈ inputLines d ↔ d.fields = [] := by
  rw [inputLines, InputDeclaration.isEmpty]
  split
  · next empty => exact iff_of_true (List.mem_singleton.mpr rfl) (List.isEmpty_iff.mp empty)
  · next filled =>
    refine iff_of_false ?_ fun empty => filled (List.isEmpty_iff.mpr empty)
    intro member
    obtain ⟨f, -, line⟩ := List.mem_map.mp member
    -- The line of the placeholder says nothing about being required.
    have required := required_occurs_fieldLine f
    rw [line] at required
    exact absurd required (by decide)

theorem name?_fieldType_eq_placeholder {t : TypeRef} {takesId : Bool} :
    (fieldType takesId t).name? = some placeholder ↔ declaredName t.name = placeholder := by
  cases short : shorthand? t.name with
  | none =>
    rw [fieldType_of_long short]
    exact Option.some_inj
  | some method =>
    by_cases location : t.location = .scalar
    · have own : ∀ s ∈ builtinMethods, declaredName s.1 ≠ placeholder := by decide +kernel
      rw [name?_fieldType_of_shorthand short location]
      exact iff_of_false nofun (own _ (mem_builtinMethods short))
    · rw [fieldType_of_ne_scalar location]
      exact Option.some_inj

theorem placeholder_mem_usedNames_iff {c : InputType × String} :
    placeholder ∈ (declare document config c.1 c.2).usedNames placeholder ↔
      (declare document config c.1 c.2).fields = [] ∨
        ∃ f t, IsKeptField document config c f ∧ f.mainType? = some t ∧
          declaredName t.name = placeholder := by
  cases filled : (declare document config c.1 c.2).isEmpty with
  | true =>
    rw [InputDeclaration.usedNames, filled, if_pos rfl]
    exact iff_of_true (List.mem_singleton.mpr rfl) (.inl (List.isEmpty_iff.mp filled))
  | false =>
    rw [mem_usedNames_declare filled, or_iff_right (List.isEmpty_eq_false_iff.mp filled)]
    simp only [name?_fieldType_eq_placeholder]

/-- The scalars that are declared are those that some input accepts, and the placeholder if some
input is empty; and every field refers to a scalar by the name it is declared under. -/
theorem scalars_agree (document : Document) (config : Config) : ScalarsAgree document config where
  declared := declaredScalars_eq
  exported := fun _ => exported_of_mem_declaredScalars
  reference := by
    intro c chosen f kept t main location name special
    have line := referenceLine_mem_inputLines kept main special
    have unbroken := (isLine_referenceLine special f t.isList).unbroken
    exact ⟨line, writesLine_of_mem_inputLines (mem_select.mpr ⟨c, chosen, rfl⟩) line unbroken,
      mem_declaredScalars_or_excluded (mem_inputs_of_mem_chosen chosen) kept.1 main location
        special⟩
  standIn := fun _ _ => placeholderLine_mem_inputLines_iff
  standInWritten := fun _ declared empty =>
    writesLine_of_mem_inputLines declared (placeholderLine_mem_inputLines_iff.mpr empty) (by decide)
  placeholderName := fun _ _ => placeholder_mem_usedNames_iff

/-- An input that takes a large number, and one that takes nothing. -/
def inputsOfUser : Document where
  models := [{ name := "User", fields := [] }]
  inputTypes := { client := [
    { name := "UserWhereInput"
      fields := [{ name := "size", accepts := [{ name := "BigInt", location := .scalar }] }] },
    { name := "UserCreateInput", fields := [] }] }

example : declaredScalars (file inputsOfUser {}) = [("Bigint", "BigInt"), ("NEVER", "NEVER")] := by
  rw [declaredScalars_eq]
  decide +kernel

end GraphqlCrud.Output.InputTypes
