import GraphqlCrud.Proofs.Output.Artifacts
import GraphqlCrud.Proofs.Output.InputConstants
import GraphqlCrud.Proofs.Output.ResolverArguments
/-!
Whether the inputs and enums that resolvers refer to are declared. Resolvers name them after the
model as it is called; inputs are declared without the marker of unchecked inputs, wherever in the
name it stands.
-/
namespace GraphqlCrud.Output

open Schema Text Script GraphqlCrud.Path Inputs ResolverShape

def IsKnown (document : Document) (name : String) : Prop :=
  (∃ input ∈ document.inputs, input.name = name) ∨ ∃ e ∈ document.enums, e.name = name

/-- The name is that of an enum, or the model's name is free of the marker; and where the name has
the suffix of the enum of scalar fields, it must be selected as that of an input. -/
def IsKept (document : Document) (model name : String) : Prop :=
  (∃ e ∈ document.enums, e.name = name) ∨
    (occurs uncheckedMarker model = false ∧
      (name = model ++ distinctSuffix → isSelected document name = true))

variable {document : Document} {config : Config}

theorem notMem_scalarNames (document : Document) (config : Config) {o : Operation}
    {suffix : String} (h : suffix ∈ inputSuffixes o) (model : String) (needs : Bool) :
    model ++ suffix ∉ (InputTypes.scalars document config needs).map (·.exportName) := by
  have long : ∀ o, ∀ suffix ∈ inputSuffixes o, 8 < suffix.length := by
    intro o
    cases o <;> decide
  intro member
  have short := InputTypes.length_le_of_mem_scalarNames member
  have suffix_long := long o suffix h
  rw [String.length_append] at short
  omega

/-- A name with a suffix that begins with a keyword is selected; that of the enum may not be. -/
theorem isSelected_iff {m : Model} (hm : m ∈ document.models) {o : Operation} {suffix : String}
    (h : suffix ∈ inputSuffixes o) :
    isSelected document (m.name ++ suffix) = true ↔
      (m.name ++ suffix = m.name ++ distinctSuffix →
        isSelected document (m.name ++ suffix) = true) := by
  rcases suffix_cases h with rfl | ⟨keyword, hk, rest, rfl⟩
  · exact ⟨fun selected _ => selected, fun selected => selected rfl⟩
  · have selected := isSelected_of_keyword hm hk rest
    rw [String.append_assoc] at selected
    exact ⟨fun _ _ => selected, fun _ => selected⟩

theorem mem_constantNames_iff {m : Model} (hm : m ∈ document.models) {o : Operation} {name : String}
    (referenced : name ∈ (build m.name o config.crud).inputNames)
    (known : IsKnown document name) :
    name ∈ (InputTypes.file document config).constantNames ↔ IsKept document m.name name := by
  rw [inputNames_build] at referenced
  obtain ⟨suffix, hsuffix, rfl⟩ := List.mem_map.mp referenced
  have no_scalar := notMem_scalarNames document config hsuffix m.name
    (InputTypes.needsPlaceholder document config)
  have enum_iff : m.name ++ suffix ∈ document.enums.map (·.name) ↔
      ∃ e ∈ document.enums, e.name = m.name ++ suffix := List.mem_map
  rw [InputTypes.constantNames_file, List.mem_append, List.mem_append, or_iff_right no_scalar,
    enum_iff, IsKept]
  -- An enum is declared in any case; an input depends on its name alone.
  by_cases enum : ∃ e ∈ document.enums, e.name = m.name ++ suffix
  · exact ⟨fun _ => .inl enum, fun _ => .inl enum⟩
  · obtain ⟨input, member, hname⟩ := known.resolve_right enum
    rw [or_iff_right enum, or_iff_right enum, ← hname, mem_chosen_names_of_input member, hname,
      occurs_marker_append hsuffix, ← isSelected_iff hm hsuffix]
    exact and_comm

/-- A resolver that is generated declares its arguments by these lines, and of what they refer to
the input types declare exactly what is kept, if the schema has it at all. -/
theorem reference_declared_iff (document : Document) (config : Config) (h : document.IsNamed)
    (crud : config.crud.isDisabled = false) (inputs : config.inputs.isDisabled = false)
    {m : Model} (hm : m ∈ document.models) {o : Operation}
    (kept : config.crud.keepsName (o.resolverName m.name) = true) :
    (∃ resolver, HasFile (preview document config)
        (ofParts [m.name, o.rootType.directory, o.name ++ ".base.ts"]) resolver ∧
      HasLineBeginning resolver
        (ended (ResolverFile.argumentLines (build m.name o config.crud)))) ∧
    HasFile (preview document config) (ofParts ["inputs.ts"])
      (InputTypes.file document config).render ∧
    ∀ name ∈ (build m.name o config.crud).inputNames, IsKnown document name →
      (name ∈ (InputTypes.file document config).constantNames ↔ IsKept document m.name name) ∧
      (IsKept document m.name name → Declares (InputTypes.file document config).render name) := by
  refine ⟨⟨_, hasFile_of_isMade h (a := .resolver m o) ⟨hm, kept, crud⟩, ?_⟩,
    hasFile_of_isMade h (a := .inputTypes) ⟨trivial, trivial, inputs⟩, ?_⟩
  · exact ResolverFile.hasLineBeginning_argumentLines (h.word m hm) o config
  · intro name referenced known
    have declared_iff := mem_constantNames_iff hm referenced known
    refine ⟨declared_iff, ?_⟩
    intro stays
    exact declares_of_mem_constantNames (declared_iff.mpr stays)

def documentOf (model : String) : Document where
  models := [{ name := model, fields := [] }]
  inputTypes := { client := [{
    name := model ++ "WhereInput"
    fields := [{ name := "id", accepts := [{ name := "String", location := .scalar }] }] }] }

theorem isNamed_documentOf {model : String} (h : IsWord model) : (documentOf model).IsNamed where
  word := by
    intro m hm
    obtain rfl := List.mem_singleton.mp hm
    exact h
  distinct := List.nodup_singleton _

theorem item_reference_declared :
    Declares (InputTypes.file (documentOf "Item") {}).render "ItemWhereInput" := by
  have named : (documentOf "Item").IsNamed :=
    isNamed_documentOf (IsWord.of_isIdentifier (by decide))
  have referenced : "ItemWhereInput" ∈ (build "Item" .findFirst {}).inputNames := by decide +kernel
  have known : IsKnown (documentOf "Item") "ItemWhereInput" :=
    .inl ⟨_, List.mem_singleton.mpr rfl, by decide⟩
  have stays : IsKept (documentOf "Item") "Item" "ItemWhereInput" :=
    .inr ⟨by decide, fun same => absurd same (by decide)⟩
  have declared := reference_declared_iff (documentOf "Item") {} named rfl rfl
    (List.mem_singleton.mpr rfl) (o := .findFirst) (by decide)
  exact (declared.2.2 "ItemWhereInput" referenced known).2 stays

/-- The input of a model is not declared if the model's name holds the marker. -/
theorem marked_reference_undeclared :
    (documentOf "UncheckedItem").IsNamed ∧
      "UncheckedItemWhereInput" ∈ (build "UncheckedItem" .findFirst {}).inputNames ∧
      IsKnown (documentOf "UncheckedItem") "UncheckedItemWhereInput" ∧
      "UncheckedItemWhereInput" ∉
        (InputTypes.file (documentOf "UncheckedItem") {}).constantNames := by
  refine ⟨isNamed_documentOf (IsWord.of_isIdentifier (by decide)), by decide +kernel, ?_, ?_⟩
  · exact .inl ⟨_, List.mem_singleton.mpr rfl, by decide⟩
  · rw [InputTypes.constantNames_file]
    decide +kernel

end GraphqlCrud.Output
