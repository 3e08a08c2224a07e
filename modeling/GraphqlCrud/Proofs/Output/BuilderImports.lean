import GraphqlCrud.Proofs.Output.Artifacts
import GraphqlCrud.Proofs.Output.Pages
import GraphqlCrud.Proofs.Script.Specifier
/-!
From where the generated files import the builder. All of them have the configured specifier as it
is. The files of resolvers stand in directories of their own, so that a relative specifier does not
mean the same in them as in the files at the top.
-/
namespace GraphqlCrud.Output

open Schema Script Disk GraphqlCrud.Path

variable {document : Document} {plan : Plan} {config : Config}

def builderImport (specifier : String) : ImportLine :=
  .statement { source := specifier, names := ["builder"] }

/-- The page imports the builder in one place, and its text has a line that says so. -/
structure ImportsBuilder (p : Page) (specifier : String) : Prop where
  specifiers : p.source.specifiersOf "builder" = [specifier]
  line : Text.HasLineBeginning p.output.content
    ("import \x7b builder \x7d from " ++ singleQuoted specifier ++ ";\n")

theorem ImportsBuilder.of_mem {p : Page} {specifier : String}
    (specifiers : p.source.specifiersOf "builder" = [specifier])
    (member : builderImport specifier ∈ p.source.imports) : ImportsBuilder p specifier := by
  refine ⟨specifiers, ?_⟩
  have statement : Import.statement { source := specifier, names := ["builder"] } =
      "import " ++ "" ++ bracedNames ["builder"] ++ " from " ++ singleQuoted specifier ++ ";" := rfl
  have opening : "import " ++ "" ++ bracedNames ["builder"] ++ " from " =
      "import \x7b builder \x7d from " := by decide
  have closing : ";\n" = ";" ++ "\n" := by decide
  have line := hasLineBeginning_statement member
  rw [statement, opening] at line
  rw [closing, ← String.append_assoc]
  exact line

theorem specifiersOf_resolverFile (config : Config) (r : ResolverShape) :
    (ResolverFile.file config r).specifiersOf "builder" = [config.global.builderPath] := by
  have helpers : [ResolverFile.fieldHelper r, ResolverFile.functionHelper r,
      ResolverFile.objectHelper r].contains "builder" = false := by
    have opening (rest : String) : "builder" ≠ "define" ++ rest := by
      intro same
      have first := congrArg (fun s => s.toList.head?) same
      simp [String.toList_append] at first
    simp [ResolverFile.fieldHelper, ResolverFile.functionHelper, ResolverFile.objectHelper, opening,
      String.append_assoc]
  have payload : (if r.answer = .batchPayload then
      [ImportLine.statement { source := "../../objects", names := ["BatchPayload"] }]
      else []).filterMap (ImportLine.specifierOf? "builder") = [] := by
    split <;> rfl
  simp only [SourceFile.specifiersOf, ResolverFile.file, List.filterMap_append, specifiers_ofText?,
    payload, List.filterMap_cons, specifierOf?_statement, helpers]
  rfl

/-- The pages that stand at the top of the output directory. -/
def topPages (document : Document) (plan : Plan) (config : Config) : List Page :=
  (if config.crud.isDisabled then [] else rootPages plan config) ++
    if config.inputs.isDisabled then [] else [inputPage document config]

/-- The pages of all resolvers. -/
def allResolverPages (document : Document) (plan : Plan) (config : Config) : List Page :=
  if config.crud.isDisabled then []
  else ofModels document plan fun model m => resolverPages config { m with model := model.name }

theorem directoryOf_topFile (path : String)
    (h : path ∈ ["utils.ts", "objects.ts", "autocrud.ts", "inputs.ts"]) :
    directoryOf (normal path) = {} := by
  revert path
  decide

theorem rootPages_spec {p : Page} (hp : p ∈ rootPages plan config) :
    directoryOf p.output.path = {} ∧ ImportsBuilder p config.global.builderPath := by
  rw [Page.path_output]
  have models : (plan.models.map fun m => ImportLine.statement
      (Registration.modelImport m.model)).filterMap (ImportLine.specifierOf? "builder") = [] := by
    rw [List.filterMap_map]
    exact List.filterMap_eq_nil_iff.mpr fun _ _ => rfl
  rw [rootPages, List.mem_append, List.mem_pair] at hp
  rcases hp with (rfl | rfl) | registration
  · refine ⟨directoryOf_topFile "utils.ts" (by decide), .of_mem rfl ?_⟩
    simp [utilitiesPage, Utilities.file, builderImport]
  · refine ⟨directoryOf_topFile "objects.ts" (by decide), .of_mem ?_ ?_⟩
    · simp only [SourceFile.specifiersOf, SharedObjects.file, List.filterMap_append,
        specifiers_ofText?]
      rfl
    · simp [SharedObjects.file, builderImport]
  · split at registration
    · obtain rfl := List.mem_singleton.mp registration
      refine ⟨directoryOf_topFile "autocrud.ts" (by decide), .of_mem ?_ ?_⟩
      · simp only [SourceFile.specifiersOf, Registration.file, List.filterMap_append, models]
        rfl
      · simp [Registration.file, builderImport]
    · cases registration

theorem topPages_spec {p : Page} (hp : p ∈ topPages document plan config) :
    directoryOf p.output.path = {} ∧ ImportsBuilder p config.global.builderPath := by
  rw [topPages, List.mem_append] at hp
  rcases hp with root | inputs
  · split at root
    · cases root
    · exact rootPages_spec root
  · split at inputs
    · cases inputs
    · rw [Page.path_output]
      obtain rfl := List.mem_singleton.mp inputs
      refine ⟨directoryOf_topFile "inputs.ts" (by decide), .of_mem ?_ ?_⟩
      · simp only [inputPage, SourceFile.specifiersOf, InputTypes.file, List.filterMap_append,
          specifiers_ofText?]
        rfl
      · simp [inputPage, InputTypes.file, builderImport]

theorem importsBuilder_of_resolverPages {p : Page}
    (hp : p ∈ allResolverPages document plan config) :
    ImportsBuilder p config.global.builderPath := by
  rw [allResolverPages] at hp
  split at hp
  · cases hp
  · obtain ⟨m, -, model, -, made⟩ := mem_ofModels.mp hp
    obtain ⟨o, -, rfl⟩ := List.mem_map.mp made
    exact .of_mem (specifiersOf_resolverFile config _)
      (by simp [resolverPage, ResolverFile.file, builderImport])

/-- The files at the top and those of the resolvers import the builder, and no others do. -/
theorem mem_pages_iff {p : Page} (hp : p.source.specifiersOf "builder" ≠ []) :
    p ∈ pages document plan config ↔
      p ∈ topPages document plan config ∨ p ∈ allResolverPages document plan config := by
  have ofModel {model : Model} {m : ModelOperations} :
      p ∈ modelPages config model m ↔ p ∈ resolverPages config { m with model := model.name } := by
    simp only [modelPages, List.mem_cons, List.mem_append, List.mem_map, List.not_mem_nil, or_false]
    refine ⟨?_, fun resolver => .inr (.inl (.inl resolver))⟩
    rintro (rfl | (resolver | ⟨t, -, rfl⟩) | rfl)
    · exact absurd rfl hp
    · exact resolver
    · exact absurd rfl hp
    · exact absurd rfl hp
  have models : p ∈ ofModels document plan (modelPages config) ↔
      p ∈ ofModels document plan fun model m =>
        resolverPages config { m with model := model.name } := by
    simp only [mem_ofModels, ofModel]
  simp only [pages, topPages, allResolverPages, List.mem_append]
  split
  · simp
  · rw [List.mem_append, models]
    tauto

theorem ImportsBuilder.mem_specifiers {p : Page} {specifier : String}
    (h : ImportsBuilder p specifier) : specifier ∈ p.source.specifiersOf "builder" := by
  rw [h.specifiers]
  exact List.mem_singleton_self _

theorem ImportsBuilder.mem_pages {p : Page} {specifier : String} (h : ImportsBuilder p specifier)
    (listed : p ∈ topPages document plan config ∨ p ∈ allResolverPages document plan config) :
    p ∈ pages document plan config :=
  (mem_pages_iff (List.ne_nil_of_mem h.mem_specifiers)).mpr listed

/-- Wherever the builder is imported, it is the same module. -/
def BuilderIsShared (document : Document) (plan : Plan) (config : Config) : Prop :=
  ∀ p ∈ pages document plan config, ∀ q ∈ pages document plan config,
    ∀ s ∈ p.source.specifiersOf "builder", ∀ t ∈ q.source.specifiersOf "builder",
      resolve p.output.path s = resolve q.output.path t

/-- How many directories a specifier leads up. -/
def upsOf (specifier : String) : Nat := (({} : Route).follow (names specifier)).ups

theorem top_of_resolverPages {p : Page} (hp : p ∈ allResolverPages document plan config) :
    ∃ top, top ∈ topPages document plan config := by
  rw [allResolverPages] at hp
  split at hp
  · cases hp
  · next enabled =>
    exact ⟨utilitiesPage config, by simp [topPages, enabled, rootPages]⟩

theorem builderIsShared_iff_leadsBack (document : Document) (plan : Plan) (config : Config) :
    BuilderIsShared document plan config ↔
      (isRelative config.global.builderPath = true →
        ∀ p ∈ allResolverPages document plan config,
          (directoryOf p.output.path).LeadsBack (upsOf config.global.builderPath)) := by
  constructor
  · intro shared relative p hp
    obtain ⟨top, htop⟩ := top_of_resolverPages hp
    obtain ⟨atTop, imports⟩ := topPages_spec htop
    have imports' := importsBuilder_of_resolverPages hp
    have same := shared p (imports'.mem_pages (.inr hp)) top (imports.mem_pages (.inl htop)) _
      imports'.mem_specifiers _ imports.mem_specifiers
    exact (resolve_eq_resolve_iff atTop).mp same relative
  · intro back
    -- All files agree with a file at the top of the output directory.
    have alike : ∀ p ∈ pages document plan config, ∀ s ∈ p.source.specifiersOf "builder",
        resolve p.output.path s = resolve "utils.ts" config.global.builderPath := by
      intro p hp s hs
      rcases (mem_pages_iff (List.ne_nil_of_mem hs)).mp hp with top | resolver
      · obtain ⟨atTop, imports⟩ := topPages_spec top
        rw [imports.specifiers] at hs
        obtain rfl := List.mem_singleton.mp hs
        have utilities : directoryOf "utils.ts" = {} := by decide
        rw [resolve, resolve, atTop, utilities]
      · rw [(importsBuilder_of_resolverPages resolver).specifiers] at hs
        obtain rfl := List.mem_singleton.mp hs
        exact (resolve_eq_resolve_iff (by decide)).mpr fun relative => back relative p resolver
    intro p hp q hq s hs t ht
    rw [alike p hp s hs, alike q hq t ht]

theorem directoryOf_resolverPages (words : ∀ m ∈ plan.models, Text.IsWord m.model) {p : Page}
    (hp : p ∈ allResolverPages document plan config) :
    ∃ (model : String) (t : RootType),
      directoryOf p.output.path = { names := [model, t.directory] } := by
  rw [allResolverPages] at hp
  split at hp
  · cases hp
  obtain ⟨m, hm, model, found, made⟩ := mem_ofModels.mp hp
  obtain ⟨o, -, rfl⟩ := List.mem_map.mp made
  have name : model.name = m.model := by simpa using List.find?_some found
  have word := words m hm
  have blank : '/' ∉ "".toList := by decide
  have part : IsPart m.model := by simpa using IsPart.of_word word blank
  have ending : ResolverFile.stem o ++ ".ts" = o.name ++ ".base.ts" := by cases o <;> decide
  have joined : (resolverPage config (ResolverShape.build m.model o config.crud)).path =
      join (join (join "" m.model) o.rootType.directory) (ResolverFile.stem o ++ ".ts") := rfl
  have path : normal (resolverPage config (ResolverShape.build m.model o config.crud)).path =
      ofParts [m.model, o.rootType.directory, o.name ++ ".base.ts"] := by
    rw [joined, ending]
    exact normal_join_three part (Artifact.isPart_directory o.rootType) (Artifact.isPart_stem o)
  have parts : ∀ p ∈ [m.model, o.rootType.directory, o.name ++ ".base.ts"], IsPart p := by
    simp [part, Artifact.isPart_directory, Artifact.isPart_stem]
  have down : ".." ∉ [m.model, o.rootType.directory] := by
    have dot : m.model ≠ ".." := by
      intro same
      have none := word.notMem (d := '.') (by decide) (by decide)
      rw [same] at none
      exact none (by decide)
    have plain : o.rootType.directory ≠ ".." := by cases o.rootType <;> decide
    simp [Ne.symm dot, Ne.symm plain]
  refine ⟨m.model, o.rootType, ?_⟩
  rw [name, Page.path_output, path]
  exact directoryOf_ofParts parts down

/-- Every file that uses the builder imports it by the configured specifier. They all reach one
module if the specifier is not relative; otherwise only if there are no files of resolvers, or their
directories come to nothing, as no directories with plain names do. -/
theorem builder_isShared_iff (document : Document) (plan : Plan) (config : Config) :
    files document plan config = inGroupOrder ((pages document plan config).map Page.output) ∧
    (∀ p ∈ topPages document plan config ++ allResolverPages document plan config,
      p ∈ pages document plan config ∧ ImportsBuilder p config.global.builderPath) ∧
    (BuilderIsShared document plan config ↔
      (isRelative config.global.builderPath = true →
        ∀ p ∈ allResolverPages document plan config,
          (directoryOf p.output.path).LeadsBack (upsOf config.global.builderPath))) ∧
    ((∀ m ∈ plan.models, Text.IsWord m.model) →
      (BuilderIsShared document plan config ↔
        isRelative config.global.builderPath = false ∨
          allResolverPages document plan config = [])) := by
  have general := builderIsShared_iff_leadsBack document plan config
  refine ⟨by rw [files, made_eq_map_pages], ?_, general, fun words => ?_⟩
  · intro p hp
    have imports : ImportsBuilder p config.global.builderPath := by
      rcases List.mem_append.mp hp with top | resolver
      · exact (topPages_spec top).2
      · exact importsBuilder_of_resolverPages resolver
    exact ⟨imports.mem_pages (List.mem_append.mp hp), imports⟩
  · rw [general]
    constructor
    · intro back
      refine or_iff_not_imp_left.mpr fun relative => List.eq_nil_iff_forall_not_mem.mpr ?_
      intro p hp
      rw [Bool.not_eq_false] at relative
      obtain ⟨model, t, directory⟩ := directoryOf_resolverPages words hp
      have closed := (back relative p hp).closed
      rw [directory] at closed
      cases closed
    · rintro (named | none) relative
      · rw [named] at relative
        cases relative
      · simp [none]

def usersOnly : Document := { models := [{ name := "User", fields := [] }] }

def aliased : Config := { global := { builderPath := "@/graphql/builder" } }

/-- A specifier that is not relative means the same everywhere. -/
theorem builder_isShared_aliased :
    BuilderIsShared usersOnly (Plan.build usersOnly aliased.crud) aliased := by
  have words : ∀ m ∈ (Plan.build usersOnly aliased.crud).models, Text.IsWord m.model := by
    intro m hm
    rw [Plan.models_build] at hm
    obtain rfl := List.mem_singleton.mp hm
    exact Text.IsWord.of_isIdentifier (by decide)
  have shared := (builder_isShared_iff usersOnly (Plan.build usersOnly aliased.crud) aliased).2.2.2
  exact (shared words).mpr (.inl (by decide))

/-- With the options as they are by default, a resolver imports the builder from beside itself. -/
theorem builder_not_shared_by_default :
    ¬ BuilderIsShared usersOnly (Plan.build usersOnly {}) {} := by
  intro shared
  have top : utilitiesPage {} ∈ topPages usersOnly (Plan.build usersOnly {}) {} :=
    List.mem_append_left _ List.mem_cons_self
  have resolver : resolverPage {} (ResolverShape.build "User" .count {}) ∈
      allResolverPages usersOnly (Plan.build usersOnly {}) {} := by
    have kept : Operation.count ∈ (Plan.surviving {} "User").operations :=
      Plan.mem_operations_surviving.mpr (by decide)
    refine mem_ofModels.mpr ⟨Plan.surviving {} "User", ?_, { name := "User", fields := [] }, rfl, ?_⟩
    · rw [Plan.models_build]
      exact List.mem_singleton_self _
    · exact List.mem_map_of_mem kept
  have imports := (topPages_spec top).2
  have imports' := importsBuilder_of_resolverPages resolver
  have same := shared _ (imports.mem_pages (.inl top)) _ (imports'.mem_pages (.inr resolver)) _
    imports.mem_specifiers _ imports'.mem_specifiers
  revert same
  decide +kernel

end GraphqlCrud.Output
