import GraphqlCrud.Proofs.Config.Sections
import GraphqlCrud.Proofs.Text.Endings
import GraphqlCrud.Proofs.Toml.Reading
/-!
Which configurations are accepted, and what they are read as: a document sets the options that it
gives and no others, and is refused when it says anything else or leaves one of three texts blank.
-/
namespace GraphqlCrud.Config

open Toml (Value Origin Entries)

/-! ### The sections and their parts -/

/-- An option by itself. -/
def Part.option {σ : Type} (key : String) (kind : Kind) (get : σ → kind.Content)
    (put : kind.Content → σ → σ) (get_put : ∀ x c, get (put x c) = x) : Part σ where
  key
  Content := kind.Content
  get
  put
  read value _ := kind.read value
  settings := [kind.setting]
  get_put
  obeys := kind.obeys

/-- A section inside another. -/
def Part.section {σ τ : Type} (key : String) (parts : List (Part τ)) (get : σ → τ) (put : τ → σ → σ)
    (get_put : ∀ x c, get (put x c) = x) (nonempty : parts ≠ [])
    (apart : parts.Pairwise Part.Apart) : Part σ where
  key
  Content := τ
  get
  put
  read := (optionsOf parts).read
  settings := settingsOf parts
  get_put
  obeys := obeys_section nonempty apart

def globalParts : List (Part GlobalConfig) := [
  .option "outputDir" .text (·.outputDir) (fun x c => { c with outputDir := x }) fun _ _ => rfl,
  .option "deleteOutputDirBeforeGenerate" .flag (·.deleteOutputFirst)
    (fun x c => { c with deleteOutputFirst := x }) fun _ _ => rfl,
  .option "noNestedInput" .flag (·.noNestedInput) (fun x c => { c with noNestedInput := x })
    fun _ _ => rfl,
  .option "builderImportPath" .text (·.builderPath) (fun x c => { c with builderPath := x })
    fun _ _ => rfl]

def crudParts : List (Part CrudConfig) := [
  .option "disabled" .flag (·.isDisabled) (fun x c => { c with isDisabled := x }) fun _ _ => rfl,
  .option "generateAutocrud" .flag (·.generateAutocrud) (fun x c => { c with generateAutocrud := x })
    fun _ _ => rfl,
  .option "prismaImporter" .text (·.prismaImport) (fun x c => { c with prismaImport := x })
    fun _ _ => rfl,
  .option "inputsImporter" .text (·.inputsImport) (fun x c => { c with inputsImport := x })
    fun _ _ => rfl,
  .option "prismaCaller" .text (·.prismaCaller) (fun x c => { c with prismaCaller := x })
    fun _ _ => rfl,
  .option "resolverImports" .text (·.resolverImports) (fun x c => { c with resolverImports := x })
    fun _ _ => rfl,
  .option "includeResolversExact" .texts (·.includeExact) (fun x c => { c with includeExact := x })
    fun _ _ => rfl,
  .option "includeResolversContain" .texts (·.includeContaining)
    (fun x c => { c with includeContaining := x }) fun _ _ => rfl,
  .option "excludeResolversExact" .texts (·.excludeExact) (fun x c => { c with excludeExact := x })
    fun _ _ => rfl,
  .option "excludeResolversContain" .texts (·.excludeContaining)
    (fun x c => { c with excludeContaining := x }) fun _ _ => rfl,
  .option "mapIdFieldsToGraphqlId" (.mapping "Objects") (·.mapsIds)
    (fun x c => { c with mapsIds := x }) fun _ _ => rfl,
  .option "createManyMode" .mode (·.createManyMode) (fun x c => { c with createManyMode := x })
    fun _ _ => rfl]

def exclusionParts : List (Part Exclusions) := [
  .option "create" .exclusions (·.create) (fun x c => { c with create := x }) fun _ _ => rfl,
  .option "update" .exclusions (·.update) (fun x c => { c with update := x }) fun _ _ => rfl,
  .option "where" .exclusions (·.where_) (fun x c => { c with where_ := x }) fun _ _ => rfl,
  .option "orderBy" .exclusions (·.orderBy) (fun x c => { c with orderBy := x }) fun _ _ => rfl]

theorem globalParts_apart : globalParts.Pairwise Part.Apart := by
  simp only [globalParts, List.pairwise_cons, List.forall_mem_cons, List.not_mem_nil,
    false_implies, implies_true, List.Pairwise.nil, and_true]
  and_intros
  all_goals exact ⟨by decide, fun _ _ => rfl, fun _ _ => rfl⟩

theorem crudParts_apart : crudParts.Pairwise Part.Apart := by
  simp only [crudParts, List.pairwise_cons, List.forall_mem_cons, List.not_mem_nil,
    false_implies, implies_true, List.Pairwise.nil, and_true]
  and_intros
  all_goals exact ⟨by decide, fun _ _ => rfl, fun _ _ => rfl⟩

theorem exclusionParts_apart : exclusionParts.Pairwise Part.Apart := by
  simp only [exclusionParts, List.pairwise_cons, List.forall_mem_cons, List.not_mem_nil,
    false_implies, implies_true, List.Pairwise.nil, and_true]
  and_intros
  all_goals exact ⟨by decide, fun _ _ => rfl, fun _ _ => rfl⟩

def inputsParts : List (Part InputsConfig) := [
  .option "disabled" .flag (·.isDisabled) (fun x c => { c with isDisabled := x }) fun _ _ => rfl,
  .option "prismaImporter" .text (·.prismaImport) (fun x c => { c with prismaImport := x })
    fun _ _ => rfl,
  .option "excludeScalars" .texts (·.excludedScalars) (fun x c => { c with excludedScalars := x })
    fun _ _ => rfl,
  .section "excludeInputFields" exclusionParts (·.excludedFields)
    (fun x c => { c with excludedFields := x }) (fun _ _ => rfl) (List.cons_ne_nil _ _)
    exclusionParts_apart,
  .option "mapIdFieldsToGraphqlId" (.mapping "WhereUniqueInputs") (·.mapsIds)
    (fun x c => { c with mapsIds := x }) fun _ _ => rfl]

theorem inputsParts_apart : inputsParts.Pairwise Part.Apart := by
  simp only [inputsParts, List.pairwise_cons, List.forall_mem_cons, List.not_mem_nil,
    false_implies, implies_true, List.Pairwise.nil, and_true]
  and_intros
  all_goals exact ⟨by decide, fun _ _ => rfl, fun _ _ => rfl⟩

def rootParts : List (Part Config) := [
  .section "global" globalParts (·.global) (fun x c => { c with global := x }) (fun _ _ => rfl)
    (List.cons_ne_nil _ _) globalParts_apart,
  .section "crud" crudParts (·.crud) (fun x c => { c with crud := x }) (fun _ _ => rfl)
    (List.cons_ne_nil _ _) crudParts_apart,
  .section "inputs" inputsParts (·.inputs) (fun x c => { c with inputs := x }) (fun _ _ => rfl)
    (List.cons_ne_nil _ _) inputsParts_apart]

theorem rootParts_apart : rootParts.Pairwise Part.Apart := by
  simp only [rootParts, List.pairwise_cons, List.forall_mem_cons, List.not_mem_nil,
    false_implies, implies_true, List.Pairwise.nil, and_true]
  and_intros
  all_goals exact ⟨by decide, fun _ _ => rfl, fun _ _ => rfl⟩

theorem sections_eq : sections = optionsOf rootParts := rfl

theorem settings_eq : settings = settingsOf rootParts := rfl

/-- Reading a configuration obeys the table of its options. -/
theorem sections_obey : Obeys settings sections.read := by
  rw [settings_eq, sections_eq]
  exact obeys_section (List.cons_ne_nil _ _) rootParts_apart

/-! ### What fits is shallow -/

theorem Part.option_isShallow {σ : Type} {key : String} {kind : Kind} {get : σ → kind.Content}
    {put : kind.Content → σ → σ} {get_put : ∀ x c, get (put x c) = x} {depth : Nat}
    (two_le : 2 ≤ depth) : (Part.option key kind get put get_put).IsShallow depth :=
  fun _ _ fits => (Kind.isWithin_of_fits fits).mono two_le

theorem Part.section_isShallow {σ τ : Type} {key : String} {parts : List (Part τ)} {get : σ → τ}
    {put : τ → σ → σ} {get_put : ∀ x c, get (put x c) = x} {nonempty : parts ≠ []}
    {apart : parts.Pairwise Part.Apart} {depth : Nat} (shallow : ∀ p ∈ parts, p.IsShallow depth) :
    (Part.section key parts get put get_put nonempty apart).IsShallow (depth + 1) :=
  fun _ ordered fits => isWithin_of_fits_section nonempty apart shallow ordered fits

theorem parts_shallow :
    (∀ p ∈ globalParts, p.IsShallow 3) ∧ (∀ p ∈ crudParts, p.IsShallow 3) ∧
      (∀ p ∈ exclusionParts, p.IsShallow 2) := by
  simp only [globalParts, crudParts, exclusionParts, List.forall_mem_cons, List.not_mem_nil,
    false_implies, implies_true, and_true]
  and_intros
  all_goals exact Part.option_isShallow (by decide)

theorem inputsParts_shallow : ∀ p ∈ inputsParts, p.IsShallow 3 := by
  simp only [inputsParts, List.forall_mem_cons, List.not_mem_nil, false_implies, implies_true,
    and_true]
  have option_shallow : 2 ≤ 3 := by decide
  exact ⟨Part.option_isShallow option_shallow, Part.option_isShallow option_shallow,
    Part.option_isShallow option_shallow, Part.section_isShallow parts_shallow.2.2,
    Part.option_isShallow option_shallow⟩

/-- A document that fits nests at most five deep: in the document is a section, in that another, in
that an exclusion table, and in that an array of texts. -/
theorem isWithin_of_fits {document : Value} (ordered : document.IsOrdered)
    (fits : Fits settings document) : document.IsWithin 5 := by
  rw [settings_eq] at fits
  refine isWithin_of_fits_section (List.cons_ne_nil _ _) rootParts_apart ?_ ordered fits
  simp only [List.forall_mem_cons, List.not_mem_nil, false_implies, implies_true, and_true]
  exact ⟨Part.section_isShallow parts_shallow.1, Part.section_isShallow parts_shallow.2.1,
    Part.section_isShallow inputsParts_shallow⟩

/-! ### Texts that must not be blank -/

/-- The sections and keys of the texts that must not be blank, in the order in which they are looked
at. -/
def needed : List (String × String) :=
  [("global", "outputDir"), ("global", "builderImportPath"), ("crud", "prismaCaller")]

/-- A document gives a text of which trimming leaves nothing. -/
def IsBlankAt (document : Value) (place : String × String) : Prop :=
  ∃ content, document.at? [place.1, place.2] = some (.text content) ∧ Text.trim content = ""

/-- The text that is looked at for a place: it has the key of the place, and is blank when the
document gives a blank one. -/
def IsTextFor (document : Value) (place row : String × String) : Prop :=
  row.1 = place.2 ∧ (Text.allBlank row.2 = true ↔ IsBlankAt document place)

theorem isTextFor_of_holds (get : Config → String) {document : Value} {place : String × String}
    {c : Config} (holds : Setting.Holds ⟨[place.1, place.2], .text, get⟩ document {} c)
    (visible : Text.allBlank (get {}) = false) : IsTextFor document place (place.2, get c) := by
  refine ⟨rfl, ?_⟩
  unfold Setting.Holds at holds
  unfold IsBlankAt
  cases found : document.at? [place.1, place.2] with
  | none =>
    rw [found] at holds
    have fallback : get c = get {} := holds
    simp [fallback, visible]
  | some value =>
    rw [found] at holds
    have given : value = .text (get c) := holds
    simp [given, Text.allBlank_iff_trim_eq]

theorem neededTexts_match {document : Value} {c : Config}
    (holds : ∀ s ∈ settings, s.Holds document {} c) :
    List.Forall₂ (IsTextFor document) needed (neededTexts c) := by
  have outputDir : IsTextFor document ("global", "outputDir") ("outputDir", c.global.outputDir) :=
    isTextFor_of_holds (·.global.outputDir) (holds _ (by simp [settings])) (by decide)
  have builderPath :
      IsTextFor document ("global", "builderImportPath")
        ("builderImportPath", c.global.builderPath) :=
    isTextFor_of_holds (·.global.builderPath) (holds _ (by simp [settings])) (by decide)
  have prismaCaller :
      IsTextFor document ("crud", "prismaCaller") ("prismaCaller", c.crud.prismaCaller) :=
    isTextFor_of_holds (·.crud.prismaCaller) (holds _ (by simp [settings])) (by decide)
  exact .cons outputDir (.cons builderPath (.cons prismaCaller .nil))

variable {document : Value} {places rows : List (String × String)}

theorem find?_blank_eq_none_iff (texts : List.Forall₂ (IsTextFor document) places rows) :
    rows.find? (Text.allBlank ·.2) = none ↔ ∀ place ∈ places, ¬ IsBlankAt document place := by
  induction texts with
  | nil => simp
  | cons text _ ih =>
    rw [List.forall_mem_cons, ← ih, ← text.2, List.find?_cons]
    split <;> simp_all

theorem find?_first_blank {before after : List (String × String)} {place : String × String}
    (texts : List.Forall₂ (IsTextFor document) (before ++ place :: after) rows)
    (none_before : ∀ earlier ∈ before, ¬ IsBlankAt document earlier)
    (blank : IsBlankAt document place) :
    (rows.find? (Text.allBlank ·.2)).map (·.1) = some place.2 := by
  induction before generalizing rows with
  | nil =>
    obtain _ | ⟨text, -⟩ := texts
    rw [List.find?_cons, text.2.mpr blank]
    exact congrArg some text.1
  | cons earlier before ih =>
    obtain _ | ⟨text, texts⟩ := texts
    obtain ⟨visible, none_before⟩ := List.forall_mem_cons.mp none_before
    rw [← text.2, Bool.not_eq_true] at visible
    rw [List.find?_cons, visible]
    exact ih texts none_before

/-! ### A whole configuration -/

/-- What becomes of a source that holds a document. -/
structure Follows (source : String) (document : Value) : Prop where
  /-- It is accepted when the document fits and leaves no needed text blank. -/
  accepted : (∃ c, read source = .ok c) ↔
    Fits settings document ∧ ∀ place ∈ needed, ¬ IsBlankAt document place
  /-- Every option has the value that the document gives it, or its default. -/
  merged : ∀ c, read source = .ok c → ∀ s ∈ settings, s.Holds document {} c
  /-- No other configuration has all these values. -/
  only : ∀ c, read source = .ok c → ∀ c', (∀ s ∈ settings, s.Holds document {} c') → c' = c
  /-- Among the blank texts, the first in their order is reported. -/
  refused : ∀ before place after, needed = before ++ place :: after → Fits settings document →
    (∀ earlier ∈ before, ¬ IsBlankAt document earlier) → IsBlankAt document place →
    read source = .error (.blank place.2 (Text.byteIndex? place.2 source))

theorem firstBlank?_eq (c : Config) :
    firstBlank? c = ((neededTexts c).find? (Text.allBlank ·.2)).map (·.1) := rfl

theorem read_of_sections {source : String} {entries : Entries} {c : Config}
    (parsed : Toml.read? source = some entries) (taken : ofEntries entries = .ok c) :
    read source = match firstBlank? c with
      | none => .ok c
      | some key => .error (.blank key (Text.byteIndex? key source)) := by
  unfold read
  rw [parsed]
  simp only [taken]
  rfl

theorem taken_of_read {source : String} {entries : Entries} {c : Config}
    (parsed : Toml.read? source = some entries) (accepted : read source = .ok c) :
    ofEntries entries = .ok c ∧ firstBlank? c = none := by
  have whole := accepted
  unfold read at whole
  rw [parsed] at whole
  obtain ⟨taken, sections_read, -⟩ := bind_eq_ok_iff.mp whole
  rw [read_of_sections parsed sections_read] at accepted
  split at accepted
  case h_1 visible =>
    cases accepted
    exact ⟨sections_read, visible⟩
  case h_2 => cases accepted

theorem follows_of_read? {source : String} {entries : Entries}
    (parsed : Toml.read? source = some entries) (ordered : entries.IsOrdered)
    (plain : IsPlain settings (.table .headed entries)) :
    Follows source (.table .headed entries) := by
  have ordered : (Value.table .headed entries).IsOrdered := Value.isOrdered_table_iff.mpr ordered
  have texts {c : Config} (taken : ofEntries entries = .ok c) :
      List.Forall₂ (IsTextFor (.table .headed entries)) needed (neededTexts c) :=
    neededTexts_match (sections_obey.sets ordered plain taken)
  have merged (c : Config) (accepted : read source = .ok c) :
      ∀ s ∈ settings, s.Holds (.table .headed entries) {} c :=
    sections_obey.sets ordered plain (taken_of_read parsed accepted).1
  refine { accepted := ⟨?_, ?_⟩, merged, only := ?_, refused := ?_ }
  · rintro ⟨c, accepted⟩
    obtain ⟨taken, visible⟩ := taken_of_read parsed accepted
    rw [firstBlank?_eq, Option.map_eq_none_iff] at visible
    exact ⟨(sections_obey.accepts ordered plain).mp ⟨c, taken⟩,
      (find?_blank_eq_none_iff (texts taken)).mp visible⟩
  · rintro ⟨fits, visible⟩
    obtain ⟨c, taken⟩ : ∃ c, ofEntries entries = .ok c :=
      (sections_obey.accepts ordered plain).mpr fits
    have none_blank : firstBlank? c = none := by
      rw [firstBlank?_eq, (find?_blank_eq_none_iff (texts taken)).mpr visible]
      rfl
    exact ⟨c, by rw [read_of_sections parsed taken, none_blank]⟩
  · intro c accepted c' holds
    exact eq_of_holds holds (merged c accepted)
  · intro before place after split_at fits none_before blank
    obtain ⟨c, taken⟩ : ∃ c, ofEntries entries = .ok c :=
      (sections_obey.accepts ordered plain).mpr fits
    have first : firstBlank? c = some place.2 :=
      find?_first_blank (split_at ▸ texts taken) none_before blank
    rw [read_of_sections parsed taken, first]

/-- A source that holds a plain document, however deep, is accepted when each of its keys is known and
has a value of its kind and no needed text is blank, and it sets just the options it gives. -/
theorem read_follows {source : String} {entries : Entries}
    (described : Toml.Describes source entries)
    (plain : IsPlain settings (.table .headed entries)) :
    Follows source (.table .headed entries) := by
  obtain ⟨depth, parsed⟩ := described.exists_read
  have ordered := Toml.readWithin?_isOrdered parsed
  cases found : Toml.read? source with
  | some entries' =>
    cases Toml.readWithin?_unique parsed found
    exact follows_of_read? found ordered plain
  | none =>
    -- the document nests too deep to be read, and so too deep to fit
    have refused : read source = unfit := by
      unfold read
      rw [found]
    have misfit : ¬ Fits settings (.table .headed entries) := by
      intro fits
      have within := isWithin_of_fits (Value.isOrdered_table_iff.mpr ordered) fits
      have five_le : 5 ≤ Toml.maxDepth := by decide
      have again := Toml.readWithin?_of_isWithin parsed (within.mono five_le)
      cases found.symm.trans again
    have unread (c : Config) : read source ≠ .ok c := by
      rw [refused]
      exact nofun
    refine { accepted := ⟨?_, ?_⟩, merged := ?_, only := ?_, refused := ?_ }
    · rintro ⟨c, accepted⟩
      exact absurd accepted (unread c)
    · rintro ⟨fits, -⟩
      exact absurd fits misfit
    · intro c accepted
      exact absurd accepted (unread c)
    · intro c accepted
      exact absurd accepted (unread c)
    · intro before place after split_at fits
      exact absurd fits misfit

def transactionSource : String :=
  "[global]\noutputDir = './api'\n\n[crud]\ncreateManyMode = 'transaction'\n\n" ++
    "[inputs.excludeInputFields.create]\nUser = ['id']\n"

def transactionStatements : List Toml.Statement := [
  .header ["global"],
  .pair ["outputDir"] (.text "./api"),
  .header ["crud"],
  .pair ["createManyMode"] (.text "transaction"),
  .header ["inputs", "excludeInputFields", "create"],
  .pair ["User"] (.array [.text "id"] false)]

def transactionEntries : Entries := [
  ("crud", .table .headed [("createManyMode", .text "transaction")]),
  ("global", .table .headed [("outputDir", .text "./api")]),
  ("inputs", .table .implied [
    ("excludeInputFields", .table .implied [
      ("create", .table .headed [("User", .array [.text "id"] false)])])])]

open Toml in
theorem spells_transactionSource : Spells transactionSource transactionStatements := by
  have bare (k : String) (h : k.toList.all isBareKeyChar = true) (some : k.toList ≠ []) :
      KeyPart k.toList k := by
    have part := KeyPart.bare (List.all_eq_true.mp h) some
    rwa [String.ofList_toList] at part
  have literal (t : String) (h : t.toList.all (fun c => isPlain c && c != '\'') = true) :
      ValueText ('\'' :: (t.toList ++ ['\''])) (.text t) := by
    have value := ValueText.literal (s := t.toList) (by simpa [IsLiteral] using h)
    rwa [String.ofList_toList] at value
  have tight : IsBlanks [] := nofun
  have one : IsBlanks [' '] := by simp [IsBlanks]
  have gap : Filler ['\n'] := .line .feed .none
  have ends : Remainder [] := .blanks tight
  have path : Key _ ["inputs", "excludeInputFields", "create"] :=
    .dotted (bare "inputs" rfl nofun) tight tight <|
      .dotted (bare "excludeInputFields" rfl nofun) tight tight <|
        .single (bare "create" rfl nofun)
  have items : ItemsText _ [.text "id"] := .last .none (literal "id" rfl) .none
  refine ⟨_, .next .none (.header tight (.single (bare "global" rfl nofun)) tight) ends .feed <|
    .next .none (.pair (.single (bare "outputDir" rfl nofun)) one one
      (literal "./api" rfl)) ends .feed <|
    .next gap (.header tight (.single (bare "crud" rfl nofun)) tight) ends .feed <|
    .next .none (.pair (.single (bare "createManyMode" rfl nofun)) one one
      (literal "transaction" rfl)) ends .feed <|
    .next gap (.header tight path tight) ends .feed <|
    .next .none (.pair (.single (bare "User" rfl nofun)) one one (.array items)) ends .feed <|
    .none .none ends, .inl ?_⟩
  decide +kernel

theorem read_follows_transaction :
    Toml.Describes transactionSource transactionEntries ∧
      IsPlain settings (.table .headed transactionEntries) ∧
      Follows transactionSource (.table .headed transactionEntries) := by
  have described : Toml.Describes transactionSource transactionEntries :=
    .spelled spells_transactionSource rfl
  have plain : IsPlain settings (.table .headed transactionEntries) := by
    refine isPlain_iff.mpr ⟨?_, ?_⟩
    · intro path mem items isOfTables reached
      simp only [sectionPaths, List.mem_cons, List.not_mem_nil, or_false] at mem
      rcases mem with rfl | rfl | rfl | rfl | rfl
      all_goals cases reached
    · intro origin entries reached
      cases reached
  exact ⟨described, plain, read_follows described plain⟩

end GraphqlCrud.Config
