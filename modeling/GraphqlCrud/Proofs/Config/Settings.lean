import Mathlib.Data.List.Forall2
import Mathlib.Data.List.Infix
import GraphqlCrud.Config.Reader
/-!
What a configuration document may say: each option by its path of keys, the kind of value it takes
and what of the configuration it sets. The documents that fit are told from this table alone, with
no account of how they are read.
-/
namespace GraphqlCrud.Toml

/-- The value at the end of a path of keys, through tables. -/
def Value.at? : List String → Value → Option Value
  | [], value => some value
  | key :: path, .table _ entries => (Entries.find? entries key).bind (Value.at? path)
  | _ :: _, _ => none

@[simp] theorem Value.at?_nil (value : Value) : value.at? [] = some value := by
  cases value <;> rfl

@[simp] theorem Value.at?_table (key : String) (path : List String) (origin : Origin)
    (entries : Entries) :
    (Value.table origin entries).at? (key :: path) =
      (entries.find? key).bind (Value.at? path) := rfl

end GraphqlCrud.Toml

namespace GraphqlCrud.Config

open Toml (Value Origin Entries)

/-- The kinds of values that options take. -/
inductive Kind where
  | text
  | flag
  | texts
  | mapping (word : String)
  | mode
  | exclusions
deriving DecidableEq

/-- What an option of a kind holds. -/
def Kind.Content : Kind → Type
  | .text => String
  | .flag => Bool
  | .texts => List String
  | .mapping _ => Bool
  | .mode => CreateManyMode
  | .exclusions => ExclusionTable

/-- An array of strings. -/
def IsTexts (value : Value) (names : List String) : Prop :=
  ∃ isOfTables, value = .array (names.map .text) isOfTables

/-- A mapping is off by `false` and on by its word, a mode is one of two words, and an exclusion
table has an array of strings under each of its keys. -/
def Kind.Means : (kind : Kind) → Value → kind.Content → Prop
  | .text, value, content => value = .text content
  | .flag, value, content => value = .flag content
  | .texts, value, names => IsTexts value names
  | .mapping _, value, false => value = .flag false
  | .mapping word, value, true => value = .text word
  | .mode, value, .bulk => value = .text "bulk"
  | .mode, value, .transaction => value = .text "transaction"
  | .exclusions, value, table =>
    ∃ origin entries, value = .table origin entries ∧
      List.Forall₂ (fun entry row => row.1 = entry.1 ∧ IsTexts entry.2 row.2) entries table

/-- An option of a section: where it stands below the section, the kind of its value, and what of
the section's configuration it sets. -/
structure Setting (σ : Type) where
  path : List String
  kind : Kind
  get : σ → kind.Content

namespace Setting

variable {σ : Type}

/-- What an option lets stand at a path: a table on the way to the option, a value of its kind in
its place, and anything inside that value. -/
inductive Allows (s : Setting σ) (path : List String) : Value → Prop where
  | onTheWay {key : String} {rest : List String} {origin : Origin} {entries : Entries}
      (leads : s.path = path ++ key :: rest) : Allows s path (.table origin entries)
  | inPlace {value : Value} {content : s.kind.Content} (here : path = s.path)
      (fits : s.kind.Means value content) : Allows s path value
  | inside {key : String} {rest : List String} {value : Value}
      (below : path = s.path ++ key :: rest) : Allows s path value

/-- After reading a document the option has the value that stands in its place, and without one the
value it had. -/
def Holds (s : Setting σ) (document : Value) (start c : σ) : Prop :=
  match document.at? s.path with
  | some value => s.kind.Means value (s.get c)
  | none => s.get c = s.get start

end Setting

section

variable {σ : Type}

/-- All that stands in a document is let stand by some option. -/
def Fits (settings : List (Setting σ)) (document : Value) : Prop :=
  ∀ path value, document.at? path = some value → ∃ s ∈ settings, s.Allows path value

/-- A document that writes no section as an array and no mode as a table. -/
structure IsPlain (settings : List (Setting σ)) (document : Value) : Prop where
  sections : ∀ s ∈ settings, ∀ path key rest, s.path = path ++ key :: rest →
    ∀ items isOfTables, document.at? path ≠ some (.array items isOfTables)
  modes : ∀ s ∈ settings, s.kind = .mode →
    ∀ origin entries, document.at? s.path ≠ some (.table origin entries)

end

/-- The options of a configuration. -/
def settings : List (Setting Config) := [
  ⟨["global", "outputDir"], .text, (·.global.outputDir)⟩,
  ⟨["global", "deleteOutputDirBeforeGenerate"], .flag, (·.global.deleteOutputFirst)⟩,
  ⟨["global", "noNestedInput"], .flag, (·.global.noNestedInput)⟩,
  ⟨["global", "builderImportPath"], .text, (·.global.builderPath)⟩,
  ⟨["crud", "disabled"], .flag, (·.crud.isDisabled)⟩,
  ⟨["crud", "generateAutocrud"], .flag, (·.crud.generateAutocrud)⟩,
  ⟨["crud", "prismaImporter"], .text, (·.crud.prismaImport)⟩,
  ⟨["crud", "inputsImporter"], .text, (·.crud.inputsImport)⟩,
  ⟨["crud", "prismaCaller"], .text, (·.crud.prismaCaller)⟩,
  ⟨["crud", "resolverImports"], .text, (·.crud.resolverImports)⟩,
  ⟨["crud", "includeResolversExact"], .texts, (·.crud.includeExact)⟩,
  ⟨["crud", "includeResolversContain"], .texts, (·.crud.includeContaining)⟩,
  ⟨["crud", "excludeResolversExact"], .texts, (·.crud.excludeExact)⟩,
  ⟨["crud", "excludeResolversContain"], .texts, (·.crud.excludeContaining)⟩,
  ⟨["crud", "mapIdFieldsToGraphqlId"], .mapping "Objects", (·.crud.mapsIds)⟩,
  ⟨["crud", "createManyMode"], .mode, (·.crud.createManyMode)⟩,
  ⟨["inputs", "disabled"], .flag, (·.inputs.isDisabled)⟩,
  ⟨["inputs", "prismaImporter"], .text, (·.inputs.prismaImport)⟩,
  ⟨["inputs", "excludeScalars"], .texts, (·.inputs.excludedScalars)⟩,
  ⟨["inputs", "excludeInputFields", "create"], .exclusions, (·.inputs.excludedFields.create)⟩,
  ⟨["inputs", "excludeInputFields", "update"], .exclusions, (·.inputs.excludedFields.update)⟩,
  ⟨["inputs", "excludeInputFields", "where"], .exclusions, (·.inputs.excludedFields.where_)⟩,
  ⟨["inputs", "excludeInputFields", "orderBy"], .exclusions, (·.inputs.excludedFields.orderBy)⟩,
  ⟨["inputs", "mapIdFieldsToGraphqlId"], .mapping "WhereUniqueInputs", (·.inputs.mapsIds)⟩]

/-- The options say all there is to a configuration. -/
theorem eq_of_settings {c c' : Config} (same : ∀ s ∈ settings, s.get c = s.get c') : c = c' := by
  obtain ⟨⟨_, _, _, _⟩, ⟨_, _, _, _, _, _, _, _, _, _, _, _⟩, ⟨_, _, _, ⟨_, _, _, _⟩, _⟩⟩ := c
  obtain ⟨⟨_, _, _, _⟩, ⟨_, _, _, _, _, _, _, _, _, _, _, _⟩, ⟨_, _, _, ⟨_, _, _, _⟩, _⟩⟩ := c'
  simp only [settings, List.forall_mem_cons] at same
  simp_all

theorem IsTexts.unique {value : Value} {names names' : List String} (texts : IsTexts value names)
    (texts' : IsTexts value names') : names = names' := by
  obtain ⟨isOfTables, rfl⟩ := texts
  obtain ⟨_, same⟩ := texts'
  injection same with same
  exact List.map_injective_iff.mpr (fun _ _ same => Value.text.inj same) same

/-- A value means one thing of a kind at most. -/
theorem Kind.Means.unique {kind : Kind} {value : Value} {content content' : kind.Content}
    (means : kind.Means value content) (means' : kind.Means value content') :
    content = content' := by
  cases kind with
  | text => exact Value.text.inj (means.symm.trans means')
  | flag => exact Value.flag.inj (means.symm.trans means')
  | texts => exact IsTexts.unique means means'
  | mapping word =>
    cases content <;> cases content' <;> first | rfl | cases means.symm.trans means'
  | mode =>
    have same {a b : String} (left : value = .text a) (right : value = .text b) : a = b :=
      Value.text.inj (left.symm.trans right)
    cases content <;> cases content'
    · rfl
    · exact absurd (same means means') (by decide)
    · exact absurd (same means means') (by decide)
    · rfl
  | exclusions =>
    obtain ⟨origin, entries, rfl, rows⟩ := means
    obtain ⟨_, _, same, rows'⟩ := means'
    cases same
    induction rows generalizing content' with
    | nil =>
      cases rows'
      rfl
    | cons row _ ih =>
      obtain _ | ⟨row', rows'⟩ := rows'
      rw [Prod.ext (row.1.trans row'.1.symm) (row.2.unique row'.2), ih rows']

/-- A document and what was there before it leave one configuration. -/
theorem eq_of_holds {document : Value} {start c c' : Config}
    (holds : ∀ s ∈ settings, s.Holds document start c)
    (holds' : ∀ s ∈ settings, s.Holds document start c') : c = c' := by
  refine eq_of_settings fun s mem => ?_
  have left := holds s mem
  have right := holds' s mem
  unfold Setting.Holds at left right
  split at left
  case h_1 value found =>
    rw [found] at right
    exact left.unique right
  case h_2 absent =>
    rw [absent] at right
    exact left.trans right.symm

/-- The paths of the sections, the document's own among them. -/
def sectionPaths : List (List String) :=
  [[], ["global"], ["crud"], ["inputs"], ["inputs", "excludeInputFields"]]

/-- A plain document writes none of the five sections as an array, and the mode of create-many
resolvers as no table. -/
theorem isPlain_iff {document : Value} :
    IsPlain settings document ↔
      (∀ path ∈ sectionPaths, ∀ items isOfTables,
        document.at? path ≠ some (.array items isOfTables)) ∧
      ∀ origin entries, document.at? ["crud", "createManyMode"] ≠ some (.table origin entries) := by
  constructor
  · intro plain
    have mode_mem : ⟨["crud", "createManyMode"], .mode, (·.crud.createManyMode)⟩ ∈ settings := by
      simp [settings]
    have led : ∀ path ∈ sectionPaths, ∃ s ∈ settings, path <+: s.path ∧ path ≠ s.path := by decide
    refine ⟨fun path mem => ?_, plain.modes _ mode_mem rfl⟩
    obtain ⟨s, s_mem, ⟨rest, leads⟩, different⟩ := led path mem
    cases rest with
    | nil => exact absurd (List.append_nil path ▸ leads) different
    | cons key rest => exact plain.sections s s_mem path key rest leads.symm
  · rintro ⟨sections, mode⟩
    have leading : ∀ s ∈ settings, ∀ path ∈ s.path.inits, path ≠ s.path → path ∈ sectionPaths := by
      decide
    have moded : ∀ s ∈ settings, s.kind = .mode → s.path = ["crud", "createManyMode"] := by decide
    refine ⟨fun s mem path key rest leads => sections path ?_, fun s mem isMode => ?_⟩
    · refine leading s mem path ((List.mem_inits _ _).mpr ⟨_, leads.symm⟩) fun same => ?_
      rw [← same] at leads
      exact absurd (List.self_eq_append_right.mp leads) (List.cons_ne_nil _ _)
    · rw [moded s mem isMode]
      exact mode

/-! ### Reading one value -/

theorem bind_eq_ok_iff {ε α β : Type} {found : Except ε α} {next : α → Except ε β} {result : β} :
    (found >>= next) = .ok result ↔ ∃ a, found = .ok a ∧ next a = .ok result := by
  cases found <;> simp [bind, Except.bind]

theorem mapM_eq_ok_iff {ε α β : Type} {read : α → Except ε β} {items : List α} {results : List β} :
    items.mapM read = .ok results ↔ List.Forall₂ (read · = .ok ·) items results := by
  induction items generalizing results with
  | nil => cases results <;> simp [pure, Except.pure]
  | cons item items ih =>
    simp only [List.mapM_cons, bind_eq_ok_iff, ih]
    constructor
    · rintro ⟨result, first, rest, others, same⟩
      cases same
      exact .cons first others
    · rintro (_ | ⟨first, others⟩)
      exact ⟨_, first, _, others, rfl⟩

theorem text_eq_ok_iff {value : Value} {content : String} :
    text value = .ok content ↔ value = .text content := by
  cases value <;> simp [text, unfit]

theorem flag_eq_ok_iff {value : Value} {content : Bool} :
    flag value = .ok content ↔ value = .flag content := by
  cases value <;> simp [flag, unfit]

theorem texts_eq_ok_iff {value : Value} {names : List String} :
    texts value = .ok names ↔ IsTexts value names := by
  have items_iff (items : List Value) : items.mapM text = .ok names ↔ items = names.map .text := by
    simp only [mapM_eq_ok_iff, text_eq_ok_iff]
    rw [List.forall₂_eq_eq_eq.symm, List.forall₂_map_right_iff]
  cases value <;> simp [texts, unfit, IsTexts, items_iff]

theorem idMapping_eq_ok_iff {word : String} {value : Value} {isOn : Bool} :
    idMapping word value = .ok isOn ↔ (Kind.mapping word).Means value isOn := by
  unfold idMapping
  split
  case h_3 s =>
    by_cases same : s = word
    · cases isOn <;> simp [same, Kind.Means]
    · cases isOn <;> simp [same, Kind.Means, idMapping.refusal]
  all_goals cases isOn <;> simp_all [Kind.Means, idMapping.refusal, unfit]

theorem ofWord_eq_ok_iff {word : String} {mode : CreateManyMode} :
    createManyMode.ofWord word = .ok mode ↔ Kind.mode.Means (.text word) mode := by
  unfold createManyMode.ofWord
  by_cases bulk : word = "bulk"
  · have found : CreateManyMode.all.find? (·.word == word) = some .bulk := by rw [bulk]; decide
    rw [found]
    cases mode <;> simp [Kind.Means, bulk]
  · by_cases transaction : word = "transaction"
    · have found : CreateManyMode.all.find? (·.word == word) = some .transaction := by
        rw [transaction]; decide
      rw [found]
      cases mode <;> simp [Kind.Means, transaction]
    · have unknown : CreateManyMode.all.find? (·.word == word) = none := by
        simp [CreateManyMode.all, CreateManyMode.word, Ne.symm bulk, Ne.symm transaction]
      rw [unknown]
      cases mode <;> simp [unfit, Kind.Means, bulk, transaction]

theorem createManyMode_eq_ok_iff {value : Value} {mode : CreateManyMode}
    (plain : ∀ origin entries, value ≠ .table origin entries) :
    createManyMode value = .ok mode ↔ Kind.mode.Means value mode := by
  cases value with
  | text word => exact ofWord_eq_ok_iff
  | table origin entries => exact absurd rfl (plain origin entries)
  | _ => cases mode <;> simp [createManyMode, unfit, Kind.Means]

theorem exclusionTable_eq_ok_iff {value : Value} {table : ExclusionTable} :
    exclusionTable value = .ok table ↔ Kind.exclusions.Means value table := by
  have row_iff (entry : String × Value) (row : String × List String) :
      (do return (entry.1, ← texts entry.2) : Except Refusal (String × List String)) = .ok row ↔
        row.1 = entry.1 ∧ IsTexts entry.2 row.2 := by
    simp only [bind_eq_ok_iff, texts_eq_ok_iff]
    constructor
    · rintro ⟨names, read, same⟩
      cases same
      exact ⟨rfl, read⟩
    · rintro ⟨same, read⟩
      exact ⟨row.2, read, by rw [← same]; rfl⟩
  cases value with
  | table origin entries =>
    simp only [exclusionTable, mapM_eq_ok_iff, row_iff, Kind.Means]
    constructor
    · intro rows
      exact ⟨origin, entries, rfl, rows⟩
    · rintro ⟨_, _, same, rows⟩
      cases same
      exact rows
  | _ => simp [exclusionTable, Kind.Means, unfit]

/-- How a value of a kind is read. -/
def Kind.read : (kind : Kind) → Value → Except Refusal kind.Content
  | .text => Config.text
  | .flag => Config.flag
  | .texts => Config.texts
  | .mapping word => idMapping word
  | .mode => createManyMode
  | .exclusions => exclusionTable

/-- A value is read as what it means, and one that means nothing of its kind is refused. -/
theorem Kind.read_eq_ok_iff {kind : Kind} {value : Value} {content : kind.Content}
    (plain : kind = .mode → ∀ origin entries, value ≠ .table origin entries) :
    kind.read value = .ok content ↔ kind.Means value content := by
  cases kind with
  | text => exact text_eq_ok_iff
  | flag => exact flag_eq_ok_iff
  | texts => exact texts_eq_ok_iff
  | mapping word => exact idMapping_eq_ok_iff
  | mode => exact createManyMode_eq_ok_iff (plain rfl)
  | exclusions => exact exclusionTable_eq_ok_iff

end GraphqlCrud.Config
