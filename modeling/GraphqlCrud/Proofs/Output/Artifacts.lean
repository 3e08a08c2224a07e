import Mathlib.Data.List.Nodup
import GraphqlCrud.Output.Files
import GraphqlCrud.Proofs.Path.Parts
import GraphqlCrud.Proofs.Plan.Survival
/-!
Which files a run makes. Every file is made for one artifact: part of a model, or something that
the models share. Different artifacts of a document have different paths.
-/
namespace GraphqlCrud

namespace Schema.Document

/-- The models have different names, and each name is a word. -/
structure IsNamed (document : Document) : Prop where
  word : ∀ m ∈ document.models, Text.IsWord m.name
  distinct : (document.models.map (·.name)).Nodup

variable {document : Document}

theorem IsNamed.ext (h : document.IsNamed) {m n : Model} (hm : m ∈ document.models)
    (hn : n ∈ document.models) (same : m.name = n.name) : m = n :=
  List.inj_on_of_nodup_map h.distinct hm hn same

theorem IsNamed.model? (h : document.IsNamed) {m : Model} (hm : m ∈ document.models) :
    document.model? m.name = some m := by
  have found : (document.model? m.name).isSome = true := by
    rw [Document.model?, List.find?_isSome]
    exact ⟨m, hm, beq_self_eq_true _⟩
  obtain ⟨n, hn⟩ := Option.isSome_iff_exists.mp found
  have same : n.name = m.name := by simpa only [beq_iff_eq] using List.find?_some hn
  rw [hn, h.ext (List.mem_of_find?_eq_some hn) hm same]

theorem IsNamed.isPart (h : document.IsNamed) {m : Model} (hm : m ∈ document.models) :
    Path.IsPart m.name := by
  have blank : '/' ∉ "".toList := by decide
  simpa only [String.append_empty] using Path.IsPart.of_word (h.word m hm) blank

end Schema.Document

namespace Output

open Schema GraphqlCrud.Path

/-- What a file is made for. -/
inductive Artifact where
  | object (m : Model)
  | resolver (m : Model) (o : Operation)
  | typeIndex (m : Model) (t : RootType)
  | modelIndex (m : Model)
  | utilities
  | sharedObjects
  | registration
  | inputTypes

namespace Artifact

/-- The parts of the artifact's path below the output directory. -/
def parts : Artifact → List String
  | object m => [m.name, "object.base.ts"]
  | resolver m o => [m.name, o.rootType.directory, o.name ++ ".base.ts"]
  | typeIndex m t => [m.name, t.directory, "index.ts"]
  | modelIndex m => [m.name, "index.ts"]
  | utilities => ["utils.ts"]
  | sharedObjects => ["objects.ts"]
  | registration => ["autocrud.ts"]
  | inputTypes => ["inputs.ts"]

def source (document : Document) (config : Config) : Artifact → Script.SourceFile
  | object m => ModelObject.file config.crud m
  | resolver m o => ResolverFile.file config (ResolverShape.build m.name o config.crud)
  | typeIndex m t => ModelIndex.typeFile (Plan.surviving config.crud m.name) t
  | modelIndex m => ModelIndex.file (Plan.surviving config.crud m.name)
  | utilities => Utilities.file config.global.builderPath
  | sharedObjects => SharedObjects.file (document.models.map (·.name)) config
  | registration => Registration.file (Plan.build document config.crud) config
  | inputTypes => InputTypes.file document config

def IsOf (document : Document) : Artifact → Prop
  | object m | resolver m _ | typeIndex m _ | modelIndex m => m ∈ document.models
  | utilities | sharedObjects | registration | inputTypes => True

/-- What a configuration asks for, apart from the question whether a pass is enabled. -/
def IsWanted (config : Config) : Artifact → Prop
  | resolver m o => config.crud.keepsName (o.resolverName m.name) = true
  | typeIndex m t => Plan.survivors config.crud m.name t ≠ []
  | registration => config.crud.generateAutocrud = true
  | object _ | modelIndex _ | utilities | sharedObjects | inputTypes => True

def IsEnabled (config : Config) : Artifact → Prop
  | inputTypes => config.inputs.isDisabled = false
  | _ => config.crud.isDisabled = false

/-- The artifacts that a run makes files for. -/
structure IsMade (document : Document) (config : Config) (a : Artifact) : Prop where
  member : a.IsOf document
  wanted : a.IsWanted config
  enabled : a.IsEnabled config

variable {document : Document} {config : Config}

theorem isPart_directory (t : RootType) : IsPart t.directory := by
  cases t <;> exact ⟨by decide, by decide, by decide⟩

theorem isPart_stem (o : Operation) : IsPart (o.name ++ ".base.ts") := by
  cases o <;> exact ⟨by decide, by decide, by decide⟩

theorem isPart_parts (h : document.IsNamed) {a : Artifact} (ha : a.IsOf document) :
    ∀ p ∈ a.parts, IsPart p := by
  have objectFile : IsPart "object.base.ts" := ⟨by decide, by decide, by decide⟩
  have index : IsPart "index.ts" := ⟨by decide, by decide, by decide⟩
  cases a with
  | object m =>
    exact List.forall_mem_cons.mpr ⟨h.isPart ha, List.forall_mem_singleton.mpr objectFile⟩
  | resolver m o =>
    exact List.forall_mem_cons.mpr ⟨h.isPart ha, List.forall_mem_cons.mpr
      ⟨isPart_directory o.rootType, List.forall_mem_singleton.mpr (isPart_stem o)⟩⟩
  | typeIndex m t =>
    exact List.forall_mem_cons.mpr ⟨h.isPart ha, List.forall_mem_cons.mpr
      ⟨isPart_directory t, List.forall_mem_singleton.mpr index⟩⟩
  | modelIndex m =>
    exact List.forall_mem_cons.mpr ⟨h.isPart ha, List.forall_mem_singleton.mpr index⟩
  | _ => exact List.forall_mem_singleton.mpr ⟨by decide, by decide, by decide⟩

theorem parts_ne_nil (a : Artifact) : a.parts ≠ [] := by cases a <;> exact List.cons_ne_nil _ _

theorem name_stem_inj {o p : Operation} (h : o.name ++ ".base.ts" = p.name ++ ".base.ts") :
    o = p := by
  revert h
  cases o <;> cases p <;> decide

theorem directory_inj {t u : RootType} (h : t.directory = u.directory) : t = u := by
  revert h
  cases t <;> cases u <;> decide

theorem stem_ne_index (o : Operation) : o.name ++ ".base.ts" ≠ "index.ts" := by
  cases o <;> decide

/-- Artifacts of a document whose models are told apart by their names have paths of their own. -/
theorem parts_inj (h : document.IsNamed) {a b : Artifact} (ha : a.IsOf document)
    (hb : b.IsOf document) (same : a.parts = b.parts) : a = b := by
  -- Paths of different kinds differ in their number of parts or in the last one.
  cases a <;> cases b <;> simp only [parts, List.cons.injEq, reduceCtorEq, and_true, and_false,
    String.reduceEq] at same
  case object.object => rw [h.ext ha hb same]
  case resolver.resolver =>
    obtain ⟨name, -, stem⟩ := same
    rw [h.ext ha hb name, name_stem_inj stem]
  case resolver.typeIndex => exact absurd same.2.2 (stem_ne_index _)
  case typeIndex.resolver => exact absurd same.2.2.symm (stem_ne_index _)
  case typeIndex.typeIndex =>
    obtain ⟨name, directory⟩ := same
    rw [h.ext ha hb name, directory_inj directory]
  case modelIndex.modelIndex => rw [h.ext ha hb same]
  all_goals rfl

def group : Artifact → FileGroup
  | object _ | resolver .. | typeIndex .. | modelIndex _ => .model
  | utilities | sharedObjects | registration => .root
  | inputTypes => .inputs

def file (document : Document) (config : Config) (a : Artifact) : OutputFile :=
  { path := ofParts a.parts, content := (a.source document config).render, group := a.group }

def ofModel (config : Config) (m : Model) : List Artifact :=
  object m ::
    ((Plan.surviving config.crud m.name).operations.map (resolver m) ++
      (ModelIndex.presentTypes (Plan.surviving config.crud m.name)).map (typeIndex m) ++
      [modelIndex m])

/-- The artifacts that models share, apart from the input types. -/
def shared (config : Config) : List Artifact :=
  [utilities, sharedObjects] ++ if config.crud.generateAutocrud then [registration] else []

theorem generated_eq_file {a : Artifact} {path : String} (h : normal path = ofParts a.parts) :
    OutputFile.generated path (a.source document config).render a.group =
      a.file document config := by
  rw [OutputFile.generated, h, file]

theorem modelFiles_eq (h : document.IsNamed) {m : Model} (hm : m ∈ document.models) :
    modelFiles config m (Plan.surviving config.crud m.name) =
      (ofModel config m).map (file document config) := by
  have word := h.isPart hm
  have objectFile : IsPart "object.base.ts" := ⟨by decide, by decide, by decide⟩
  have index : IsPart "index.ts" := ⟨by decide, by decide, by decide⟩
  have object_path := normal_join_two word objectFile
  have index_path := normal_join_two word index
  have type_path (t : RootType) := normal_join_three word (isPart_directory t) index
  have resolver_path (o : Operation) :
      normal (ResolverFile.path "" (ResolverShape.build m.name o config.crud)) =
        ofParts (resolver m o).parts := by
    have ending : ResolverFile.stem o ++ ".ts" = o.name ++ ".base.ts" := by cases o <;> decide
    have path : ResolverFile.path "" (ResolverShape.build m.name o config.crud) =
        join (join (join "" m.name) o.rootType.directory) (ResolverFile.stem o ++ ".ts") := rfl
    rw [path, ending]
    exact normal_join_three word (isPart_directory o.rootType) (isPart_stem o)
  rw [modelFiles, resolverFiles, ofModel]
  simp only [List.map_cons, List.map_append, List.map_map, List.map_nil]
  refine congrArg₂ List.cons ?_ (congrArg₂ _ (congrArg₂ _ ?_ ?_) ?_)
  · exact generated_eq_file (a := object m) object_path
  · apply List.map_congr_left
    intro o _
    exact generated_eq_file (a := resolver m o) (resolver_path o)
  · apply List.map_congr_left
    intro t _
    exact generated_eq_file (a := typeIndex m t) (type_path t)
  · exact congrArg (fun f => [f]) (generated_eq_file (a := modelIndex m) index_path)

theorem allModelFiles_eq (h : document.IsNamed) :
    allModelFiles document (Plan.build document config.crud) config =
      (document.models.flatMap (ofModel config)).map (file document config) := by
  rw [allModelFiles, Plan.models_build, List.flatMap_map, List.map_flatMap]
  apply List.flatMap_congr
  intro m hm
  have found : document.model? (Plan.surviving config.crud m.name).model = some m := h.model? hm
  rw [found]
  exact modelFiles_eq h hm

theorem rootFiles_eq :
    rootFiles (Plan.build document config.crud) config =
      (shared config).map (file document config) := by
  have names : (Plan.build document config.crud).models.map (·.model) =
      document.models.map (·.name) := by
    rw [Plan.models_build, List.map_map]
    rfl
  have utilities_path : normal Utilities.path = ofParts ["utils.ts"] :=
    normal_single ⟨by decide, by decide, by decide⟩
  have objects_path : normal SharedObjects.path = ofParts ["objects.ts"] :=
    normal_single ⟨by decide, by decide, by decide⟩
  have registration_path : normal Registration.path = ofParts ["autocrud.ts"] :=
    normal_single ⟨by decide, by decide, by decide⟩
  rw [rootFiles, shared, names, List.map_append]
  refine congrArg₂ _ (congrArg₂ List.cons ?_ (congrArg (fun f => [f]) ?_)) ?_
  · exact generated_eq_file (a := utilities) utilities_path
  · exact generated_eq_file (a := sharedObjects) objects_path
  · split
    · exact congrArg (fun f => [f]) (generated_eq_file (a := registration) registration_path)
    · rfl

theorem inputTypes_eq :
    OutputFile.generated InputTypes.path (InputTypes.file document config).render .inputs =
      inputTypes.file document config := by
  have path : normal InputTypes.path = ofParts ["inputs.ts"] :=
    normal_single ⟨by decide, by decide, by decide⟩
  exact generated_eq_file (a := inputTypes) path

theorem mem_ofModel {m : Model} {a : Artifact} :
    a ∈ ofModel config m ↔
      a = object m ∨
      (∃ o, config.crud.keepsName (o.resolverName m.name) = true ∧ resolver m o = a) ∨
      (∃ t, Plan.survivors config.crud m.name t ≠ [] ∧ typeIndex m t = a) ∨ a = modelIndex m := by
  simp [ofModel, Plan.mem_operations_surviving, ModelIndex.presentTypes]

theorem mem_shared {a : Artifact} :
    a ∈ shared config ↔ a = utilities ∨ a = sharedObjects ∨
      (config.crud.generateAutocrud = true ∧ a = registration) := by
  simp only [shared, List.mem_append, List.mem_cons, List.not_mem_nil, or_false,
    List.mem_ite_nil_right, or_assoc]

/-- All that is wanted is made for a model or shared, apart from the input types. -/
theorem mem_ofCrud {a : Artifact} :
    a ∈ document.models.flatMap (ofModel config) ++ shared config ↔
      a ≠ inputTypes ∧ a.IsOf document ∧ a.IsWanted config := by
  rw [List.mem_append, List.mem_flatMap, mem_shared]
  constructor
  · rintro (⟨m, hm, member⟩ | rfl | rfl | ⟨generates, rfl⟩)
    · rcases mem_ofModel.mp member with rfl | ⟨o, kept, rfl⟩ | ⟨t, kept, rfl⟩ | rfl
      · exact ⟨nofun, hm, trivial⟩
      · exact ⟨nofun, hm, kept⟩
      · exact ⟨nofun, hm, kept⟩
      · exact ⟨nofun, hm, trivial⟩
    · exact ⟨nofun, trivial, trivial⟩
    · exact ⟨nofun, trivial, trivial⟩
    · exact ⟨nofun, trivial, generates⟩
  · rintro ⟨other, member, wanted⟩
    cases a with
    | object m => exact .inl ⟨m, member, mem_ofModel.mpr (.inl rfl)⟩
    | resolver m o => exact .inl ⟨m, member, mem_ofModel.mpr (.inr (.inl ⟨o, wanted, rfl⟩))⟩
    | typeIndex m t =>
      exact .inl ⟨m, member, mem_ofModel.mpr (.inr (.inr (.inl ⟨t, wanted, rfl⟩)))⟩
    | modelIndex m => exact .inl ⟨m, member, mem_ofModel.mpr (.inr (.inr (.inr rfl)))⟩
    | utilities => exact .inr (.inl rfl)
    | sharedObjects => exact .inr (.inr (.inl rfl))
    | registration => exact .inr (.inr (.inr ⟨wanted, rfl⟩))
    | inputTypes => exact absurd rfl other

theorem isEnabled_iff {a : Artifact} (other : a ≠ inputTypes) :
    a.IsEnabled config ↔ config.crud.isDisabled = false := by
  cases a with
  | inputTypes => exact absurd rfl other
  | _ => exact Iff.rfl

end Artifact

/-- One of the files has the path and the content. -/
def HasFile (files : List OutputFile) (path content : String) : Prop :=
  ∃ f ∈ files, f.path = path ∧ f.content = content

def IsFile (files : List OutputFile) (parts : List String) : Prop :=
  ∃ content, HasFile files (ofParts parts) content

/-- The files of a plan that is built from the document. -/
def preview (document : Document) (config : Config) : List OutputFile :=
  files document (Plan.build document config.crud) config

theorem mem_inGroupOrder {files : List OutputFile} {f : OutputFile} :
    f ∈ inGroupOrder files ↔ f ∈ files := by
  have every (g : FileGroup) : g ∈ FileGroup.all := by cases g <;> decide
  simp [inGroupOrder, every]

variable {document : Document} {config : Config}

theorem mem_preview {f : OutputFile} :
    f ∈ preview document config ↔
      (config.crud.isDisabled = false ∧
        (f ∈ allModelFiles document (Plan.build document config.crud) config ∨
          f ∈ rootFiles (Plan.build document config.crud) config)) ∨
      (config.inputs.isDisabled = false ∧
        f = .generated InputTypes.path (InputTypes.file document config).render .inputs) := by
  rw [preview, files, mem_inGroupOrder, made, List.mem_append]
  cases config.crud.isDisabled <;> cases config.inputs.isDisabled <;> simp

/-- A run makes the files of the artifacts that its configuration asks for. -/
theorem mem_preview_iff (h : document.IsNamed) {f : OutputFile} :
    f ∈ preview document config ↔
      ∃ a : Artifact, a.IsMade document config ∧ a.file document config = f := by
  rw [mem_preview, Artifact.allModelFiles_eq h, Artifact.rootFiles_eq, ← List.mem_append,
    ← List.map_append, Artifact.inputTypes_eq]
  constructor
  · rintro (⟨enabled, crud⟩ | ⟨enabled, rfl⟩)
    · obtain ⟨a, ha, rfl⟩ := List.mem_map.mp crud
      obtain ⟨other, member, wanted⟩ := Artifact.mem_ofCrud.mp ha
      exact ⟨a, ⟨member, wanted, (Artifact.isEnabled_iff other).mpr enabled⟩, rfl⟩
    · exact ⟨.inputTypes, ⟨trivial, trivial, enabled⟩, rfl⟩
  · rintro ⟨a, ⟨member, wanted, enabled⟩, rfl⟩
    by_cases other : a = .inputTypes
    · subst other
      exact .inr ⟨enabled, rfl⟩
    · have crud := Artifact.mem_ofCrud.mpr ⟨other, member, wanted⟩
      exact .inl ⟨(Artifact.isEnabled_iff other).mp enabled, List.mem_map_of_mem crud⟩

/-- At the path of an artifact there is its own file, or none. -/
theorem hasFile_iff (config : Config) (h : document.IsNamed) {a : Artifact}
    (ha : a.IsOf document) (content : String) :
    HasFile (preview document config) (ofParts a.parts) content ↔
      a.IsMade document config ∧ (a.source document config).render = content := by
  constructor
  · -- Whatever artifact the file belongs to, its path is that of `a`, so it is `a`.
    rintro ⟨f, hf, path, rfl⟩
    obtain ⟨b, made, rfl⟩ := (mem_preview_iff h).mp hf
    have same : b.parts = a.parts :=
      ofParts_inj (Artifact.isPart_parts h made.member) (Artifact.isPart_parts h ha)
        b.parts_ne_nil a.parts_ne_nil path
    obtain rfl := Artifact.parts_inj h made.member ha same
    exact ⟨made, rfl⟩
  · rintro ⟨made, rfl⟩
    exact ⟨a.file document config, (mem_preview_iff h).mpr ⟨a, made, rfl⟩, rfl, rfl⟩

theorem hasFile_of_isMade (h : document.IsNamed) {a : Artifact} (made : a.IsMade document config) :
    HasFile (preview document config) (ofParts a.parts) (a.source document config).render :=
  (hasFile_iff config h made.member _).mpr ⟨made, rfl⟩

theorem isFile_iff (config : Config) (h : document.IsNamed) {a : Artifact}
    (ha : a.IsOf document) :
    IsFile (preview document config) a.parts ↔ a.IsMade document config := by
  constructor
  · rintro ⟨content, file⟩
    exact ((hasFile_iff config h ha content).mp file).1
  · intro made
    exact ⟨_, hasFile_of_isMade h made⟩

theorem exists_artifact (h : document.IsNamed) {parts : List String}
    (hparts : ∀ p ∈ parts, IsPart p) (nonempty : parts ≠ [])
    (file : IsFile (preview document config) parts) :
    ∃ a : Artifact, a.IsMade document config ∧ a.parts = parts := by
  obtain ⟨content, f, hf, path, -⟩ := file
  obtain ⟨a, made, rfl⟩ := (mem_preview_iff h).mp hf
  exact ⟨a, made, ofParts_inj (Artifact.isPart_parts h made.member) hparts a.parts_ne_nil nonempty
    path⟩

end Output
end GraphqlCrud
