import Mathlib.Tactic.Tauto
import GraphqlCrud.Proofs.Inputs.UsedNames
import GraphqlCrud.Proofs.Output.InputConstants
import GraphqlCrud.Proofs.Output.InputLines
/-!
Whether the types that the declarations of inputs use are declared themselves. Scalars always are,
because they are declared for being used; inputs are declared for their names, so an input that a
field refers to is missing when its name is not among those that are selected.
-/
namespace GraphqlCrud.Output.InputTypes

open Script Schema Inputs Text

def typeCode (type : String) (isList : Bool) : String := if isList then "[" ++ type ++ "]" else type

/-- A field of a named type is written with the name of that type. The name of the key itself would
stand there once, for both. -/
theorem fieldLine_named {f : FieldDeclaration} {type : String} {isList : Bool}
    (named : f.type = .named type isList) (other : type ≠ "type") :
    fieldLine f = propertyKey f.name ++ ": t.field(\x7b required: " ++ flagText f.isRequired ++
      ", type: " ++ typeCode type isList ++ " \x7d)," := by
  have code : (if isList then ArrayLiteral.inline { elements := [.code type] } else type) =
      typeCode type isList := by
    cases isList with
    | false => rfl
    | true =>
      show "[" ++ ", ".intercalate [type] ++ "]" ++ "" = "[" ++ type ++ "]"
      rw [String.intercalate_singleton, String.append_empty]
  have distinct : typeCode type isList ≠ "type" := by
    cases isList with
    | false => exact other
    | true =>
      intro same
      have start := congrArg (fun s : String => s.toList.head?) same
      simp [typeCode] at start
  have opening : ": t.field(\x7b required: " = ": t.field(" ++ ("\x7b " ++ "required: ") := by
    decide
  have between : ", type: " = ", " ++ ("type" ++ ": ") := by decide
  have closing : " \x7d)," = " \x7d" ++ ")," := by decide
  rw [fieldLine, named]
  simp only [code, inlineObject_two, inline_required,
    inline_code (by decide) distinct, opening, between, closing,
    String.append_assoc]

/-- The line of a field says that it is of the type, or of lists of it. -/
def NamesType (type line : String) : Prop :=
  ∃ head isList, '\n' ∉ head.toList ∧ line = head ++ "type: " ++ typeCode type isList ++ " \x7d),"

theorem NamesType.unbroken {type line : String} (h : NamesType type line)
    (unbroken : '\n' ∉ type.toList) : '\n' ∉ line.toList := by
  obtain ⟨head, isList, start, rfl⟩ := h
  have code : '\n' ∉ (typeCode type isList).toList := by
    cases isList with
    | false => exact unbroken
    | true => exact notMem_append (notMem_append (by decide) unbroken) (by decide)
  exact notMem_append (notMem_append (notMem_append start (by decide)) code) (by decide)

/-- The names that a declaration uses are those of types in its lines. -/
theorem exists_line_of_mem_usedNames {d : InputDeclaration} {type : String}
    (used : type ∈ d.usedNames placeholder) (other : type ≠ "type") :
    ∃ line ∈ inputLines d, NamesType type line := by
  rw [InputDeclaration.usedNames] at used
  rw [inputLines]
  split at used
  · next empty =>
    obtain rfl := List.mem_singleton.mp used
    rw [if_pos empty]
    exact ⟨_, List.mem_singleton.mpr rfl, "_: t.field(\x7b ", false, by decide, by decide⟩
  · next filled =>
    obtain ⟨f, hf, hname⟩ := List.mem_filterMap.mp used
    rw [if_neg filled]
    cases htype : f.type with
    | shorthand method =>
      rw [htype] at hname
      cases hname
    | named written isList =>
      rw [htype] at hname
      obtain rfl := Option.some.inj hname
      have between : ", type: " = ", " ++ "type: " := by decide
      have head : IsLine (propertyKey f.name ++ ": t.field(\x7b required: " ++
          flagText f.isRequired ++ ", ") :=
        (((isLine_propertyKey f.name).append (by decide)).append (isLine_flagText _)).append
          (by decide)
      refine ⟨fieldLine f, List.mem_map_of_mem hf, _, isList, head.unbroken, ?_⟩
      rw [fieldLine_named htype other, between]
      simp only [String.append_assoc]

/-- The file exports a constant of the name, or the configuration leaves that scalar to others. -/
def IsAvailable (document : Document) (config : Config) (name : String) : Prop :=
  name ∈ (file document config).constantNames ∨
    (∃ s, exportName s = name ∧ config.inputs.excludesScalar s.name = true) ∨
    (name = placeholder ∧ config.inputs.excludesScalar placeholder = true)

/-- An input is declared under the name: it is selected, and some input has it without the marker
of unchecked inputs, and has it outright if any input does. -/
def ProvidesInput (document : Document) (name : String) : Prop :=
  isSelected document name = true ∧ ∃ input ∈ document.inputs, checkedName input.name = name ∧
    (input.name = name ∨ ∀ other ∈ document.inputs, other.name ≠ name)

/-- A scalar has the name, and inputs accept it or the configuration leaves it to others. -/
def ProvidesScalar (document : Document) (config : Config) (name : String) : Prop :=
  (∃ s, exportName s = name ∧
    (s.isUsedIn document.inputs = true ∨ config.inputs.excludesScalar s.name = true)) ∨
  (name = placeholder ∧
    (needsPlaceholder document config = true ∨ config.inputs.excludesScalar placeholder = true))

/-- The document gives a type of the name. -/
def Provides (document : Document) (config : Config) (name : String) : Prop :=
  (∃ e ∈ document.enums, e.name = name) ∨ ProvidesScalar document config name ∨
    ProvidesInput document name

variable {document : Document} {config : Config}

theorem mem_scalarNames_or_excluded_iff {name : String} :
    (name ∈ (scalars document config (needsPlaceholder document config)).map (·.exportName) ∨
      (∃ s, exportName s = name ∧ config.inputs.excludesScalar s.name = true) ∨
      (name = placeholder ∧ config.inputs.excludesScalar placeholder = true)) ↔
    ProvidesScalar document config name := by
  rw [mem_scalarNames]
  constructor
  · rintro ((⟨s, hs, used, -⟩ | ⟨rfl, needed, -⟩) | ⟨s, hs, excluded⟩ | ⟨rfl, excluded⟩)
    · exact .inl ⟨s, hs, .inl used⟩
    · exact .inr ⟨rfl, .inl needed⟩
    · exact .inl ⟨s, hs, .inr excluded⟩
    · exact .inr ⟨rfl, .inr excluded⟩
  · rintro (⟨s, hs, use⟩ | ⟨rfl, use⟩)
    · cases excluded : config.inputs.excludesScalar s.name with
      | true => exact .inr (.inl ⟨s, hs, excluded⟩)
      | false =>
        have used := use.resolve_right (by rw [excluded]; exact Bool.false_ne_true)
        exact .inl (.inl ⟨s, hs, used, excluded⟩)
    · cases excluded : config.inputs.excludesScalar placeholder with
      | true => exact .inr (.inr ⟨rfl, rfl⟩)
      | false =>
        have needed := use.resolve_right (by rw [excluded]; exact Bool.false_ne_true)
        exact .inl (.inr ⟨rfl, needed, rfl⟩)

theorem isAvailable_iff {name : String} :
    IsAvailable document config name ↔ Provides document config name := by
  have enum_iff : name ∈ document.enums.map (·.name) ↔ ∃ e ∈ document.enums, e.name = name :=
    List.mem_map
  rw [IsAvailable, Provides, ← mem_scalarNames_or_excluded_iff, constantNames_file,
    List.mem_append, List.mem_append, enum_iff, mem_chosen_names, ProvidesInput]
  have regroup (s e i x : Prop) : ((s ∨ e) ∨ i) ∨ x ↔ e ∨ (s ∨ x) ∨ i := by tauto
  exact regroup _ _ _ _

theorem exportName_eq (s : SpecialScalar) : exportName s = declaredName s.name := by
  cases s <;> decide +kernel

theorem mem_select {d : InputDeclaration} :
    d ∈ select document config ↔ ∃ c ∈ chosen document, declare document config c.1 c.2 = d :=
  List.mem_map

theorem providesScalar_of_mainType? (closed : document.ReferencesClosed)
    {c : InputType × String} (hc : c ∈ chosen document) {f : InputField}
    (hf : IsKeptField document config c f) {t : TypeRef} (ht : f.mainType? = some t)
    (location : t.location = .scalar) {takesId : Bool} {name : String}
    (named : (fieldType takesId t).name? = some name) : ProvidesScalar document config name := by
  have member := mem_inputs_of_mem_chosen hc
  have known : t.name ∈ scalarNames := by
    have resolved := closed c.1 member f hf.1 t ht
    rw [location] at resolved
    exact resolved
  obtain ⟨s, scalar, rfl⟩ := name?_fieldType_of_scalar location known named
  have used := SpecialScalar.isUsedIn_of_mainType? member hf.1 ht location scalar
  exact .inl ⟨s, exportName_eq s, .inl used⟩

/-- A type that a declaration uses stands by its name in the text of that declaration. -/
theorem exists_writesLine_of_mem_usedNames {d : InputDeclaration}
    (declared : d ∈ select document config) {name : String} (used : name ∈ d.usedNames placeholder)
    (other : name ≠ "type") (unbroken : '\n' ∉ name.toList) :
    ∃ line, NamesType name line ∧ WritesLine (file document config) d.name ("    " ++ line) := by
  obtain ⟨line, member, names⟩ := exists_line_of_mem_usedNames used other
  exact ⟨line, names, writesLine_of_mem_inputLines declared member (names.unbroken unbroken)⟩

/-- All types that the declarations of inputs use are available exactly when the types that their
fields prefer are provided wherever these are no scalars. The file has these uses in its text. -/
theorem usedNames_available_iff (document : Document) (config : Config)
    (closed : document.ReferencesClosed) :
    ((∀ d ∈ select document config, ∀ name ∈ d.usedNames placeholder,
      IsAvailable document config name) ↔
    ∀ c ∈ chosen document, ∀ f, IsKeptField document config c f → ∀ t, f.mainType? = some t →
      t.location ≠ .scalar → Provides document config (declaredName t.name)) ∧
    ∀ d ∈ select document config, ∀ name ∈ d.usedNames placeholder,
      name ≠ "type" → '\n' ∉ name.toList →
      ∃ line, NamesType name line ∧ WritesLine (file document config) d.name ("    " ++ line) := by
  simp only [isAvailable_iff]
  refine ⟨⟨?_, ?_⟩, fun d declared name => exists_writesLine_of_mem_usedNames declared⟩
  · intro available c hc f hf t ht nonscalar
    have declared : declare document config c.1 c.2 ∈ select document config :=
      mem_select.mpr ⟨c, hc, rfl⟩
    have filled := isEmpty_declare_eq_false hf ht
    apply available _ declared
    refine (mem_usedNames_declare filled).mpr ⟨f, t, hf, ht, ?_⟩
    rw [fieldType_of_ne_scalar nonscalar]
    rfl
  · -- A placeholder and scalars are provided for being used; for the rest there is the assumption.
    intro provided d hd name used
    obtain ⟨c, hc, rfl⟩ := mem_select.mp hd
    cases filled : (declare document config c.1 c.2).isEmpty with
    | true =>
      rw [InputDeclaration.usedNames, filled, if_pos rfl] at used
      have needed : needsPlaceholder document config = true :=
        List.any_eq_true.mpr ⟨_, hd, filled⟩
      exact .inr (.inl (.inr ⟨List.mem_singleton.mp used, .inl needed⟩))
    | false =>
      obtain ⟨f, t, hf, ht, named⟩ := (mem_usedNames_declare filled).mp used
      by_cases location : t.location = .scalar
      · exact .inr (.inl (providesScalar_of_mainType? closed hc hf ht location named))
      · rw [fieldType_of_ne_scalar location] at named
        obtain rfl := Option.some.inj named
        exact provided c hc f hf t ht location

/-- An order for a model. Its field takes the types that are given. -/
def documentOrderedBy (accepts : List TypeRef) : Document where
  models := [{ name := "User", fields := [] }]
  inputTypes := { client := [
    { name := "UserOrderByWithRelationInput", fields := [{ name := "name", accepts }] },
    { name := "SortOrderInput"
      fields := [{ name := "sort", accepts := [{ name := "SortOrder", location := .enum }] }] }] }
  builtinEnums := { client := [{ name := "SortOrder", values := ["asc", "desc"] }] }

def directOrder : Document := documentOrderedBy [{ name := "SortOrder", location := .enum }]

/-- The direction alone, or in an input of its own. -/
def nestedOrder : Document := documentOrderedBy [
  { name := "SortOrder", location := .enum }, { name := "SortOrderInput", location := .input }]

theorem direct_order_available :
    directOrder.ReferencesClosed ∧ ∀ d ∈ select directOrder {}, ∀ name ∈ d.usedNames placeholder,
      IsAvailable directOrder {} name := by
  have closed : directOrder.ReferencesClosed := by decide +kernel
  refine ⟨closed, (usedNames_available_iff directOrder {} closed).1.mpr ?_⟩
  intro c hc f hf t ht _
  have names : ∀ input ∈ directOrder.inputs, ∀ f ∈ input.fields, ∀ t ∈ f.mainType?,
      declaredName t.name = "SortOrder" := by decide +kernel
  rw [names c.1 (mem_inputs_of_mem_chosen hc) f hf.1 t ht]
  exact .inl ⟨_, List.mem_singleton.mpr rfl, rfl⟩

/-- The input of the direction is used, but not declared. -/
theorem sort_order_unavailable :
    nestedOrder.ReferencesClosed ∧
      (∃ d ∈ select nestedOrder {}, "SortOrderInput" ∈ d.usedNames placeholder ∧
        "name: t.field(\x7b required: false, type: SortOrderInput \x7d)," ∈ inputLines d ∧
        WritesLine (file nestedOrder {}) d.name
          ("    " ++ "name: t.field(\x7b required: false, type: SortOrderInput \x7d),")) ∧
      ¬ IsAvailable nestedOrder {} "SortOrderInput" := by
  have used : ∃ d ∈ select nestedOrder {}, "SortOrderInput" ∈ d.usedNames placeholder ∧
      "name: t.field(\x7b required: false, type: SortOrderInput \x7d)," ∈ inputLines d := by
    decide +kernel
  have missing : ¬ IsAvailable nestedOrder {} "SortOrderInput" := by
    rw [isAvailable_iff]
    rintro (enum | (⟨s, scalar, -⟩ | ⟨other, -⟩) | ⟨selected, -⟩)
    · revert enum
      decide +kernel
    · revert scalar
      cases s <;> decide +kernel
    · revert other
      decide
    · revert selected
      decide +kernel
  obtain ⟨d, declared, named, line⟩ := used
  exact ⟨by decide +kernel,
    ⟨d, declared, named, line, writesLine_of_mem_inputLines declared line (by decide)⟩, missing⟩

end GraphqlCrud.Output.InputTypes
