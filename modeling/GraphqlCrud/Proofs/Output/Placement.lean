import Mathlib.Data.List.Nodup
import GraphqlCrud.Proofs.Output.Artifacts
import GraphqlCrud.Proofs.Plan.ResolverNames
/-!
Where the files of a run stand. Every file has a place of its own, no file stands where another one
needs a directory, and the models share no directory.
-/
namespace GraphqlCrud.Output

open Schema GraphqlCrud.Path

/-- The files of a document stand apart from each other. -/
structure IsLaidOut (document : Document) (config : Config) (files : List OutputFile) : Prop where
  distinct : (files.map (·.path)).Nodup
  relative : ∀ f ∈ files, isAbsolute f.path = false
  named : ∀ f ∈ files, ∀ part ∈ Text.parts '/' f.path, part ≠ "" ∧ part ≠ "." ∧ part ≠ ".."
  /-- No file stands in the place of a directory of another. -/
  apart : ∀ f ∈ files, ∀ g ∈ files, ∀ rest, g.path ≠ f.path ++ "/" ++ rest
  /-- What is emitted for a model lies below the model's name. -/
  owned : ∀ m ∈ document.models, ∀ f ∈ modelFiles config m (Plan.surviving config.crud m.name),
    Text.begins (m.name ++ "/") f.path = true
  /-- What is emitted for another model does not. -/
  foreign : ∀ m ∈ document.models, ∀ n ∈ document.models, n ≠ m →
    ∀ f ∈ modelFiles config n (Plan.surviving config.crud n.name),
      Text.begins (m.name ++ "/") f.path = false
  /-- Neither does what the models share. -/
  own : ∀ m ∈ document.models, ∀ f ∈ files, Text.begins (m.name ++ "/") f.path = true →
    f ∈ modelFiles config m (Plan.surviving config.crud m.name)

variable {document : Document} {config : Config}

namespace Artifact

/-- The artifacts of a run in the order in which their files are made. -/
def inOrder (document : Document) (config : Config) : List Artifact :=
  (if config.crud.isDisabled then []
    else document.models.flatMap (ofModel config) ++ shared config) ++
    if config.inputs.isDisabled then [] else [inputTypes]

theorem made_eq (h : document.IsNamed) :
    made document (Plan.build document config.crud) config =
      (inOrder document config).map (file document config) := by
  rw [made, inOrder, allModelFiles_eq h, rootFiles_eq, inputTypes_eq, List.map_append]
  cases config.crud.isDisabled <;> cases config.inputs.isDisabled <;> simp

theorem isOf_of_mem_inOrder {a : Artifact} (ha : a ∈ inOrder document config) :
    a.IsOf document := by
  rcases List.mem_append.mp ha with crud | inputs
  · obtain ⟨-, crud⟩ := List.mem_ite_nil_left.mp crud
    exact (mem_ofCrud.mp crud).2.1
  · obtain ⟨-, inputs⟩ := List.mem_ite_nil_left.mp inputs
    obtain rfl := List.mem_singleton.mp inputs
    trivial

/-- The model that an artifact is part of. -/
def model? : Artifact → Option Model
  | object m | resolver m _ | typeIndex m _ | modelIndex m => some m
  | utilities | sharedObjects | registration | inputTypes => none

theorem model?_of_mem_ofModel {m : Model} {a : Artifact} (ha : a ∈ ofModel config m) :
    a.model? = some m := by
  rcases mem_ofModel.mp ha with rfl | ⟨o, -, rfl⟩ | ⟨t, -, rfl⟩ | rfl <;> rfl

theorem model?_of_mem_shared {a : Artifact} (ha : a ∈ shared config) : a.model? = none := by
  rcases mem_shared.mp ha with rfl | rfl | ⟨-, rfl⟩ <;> rfl

theorem isOf_of_mem_ofModel {m : Model} (hm : m ∈ document.models) {a : Artifact}
    (ha : a ∈ ofModel config m) : a.IsOf document := by
  rcases mem_ofModel.mp ha with rfl | ⟨o, -, rfl⟩ | ⟨t, -, rfl⟩ | rfl <;> exact hm

theorem mem_ofModel_of_model? {m : Model} {a : Artifact} (ha : a ∈ inOrder document config)
    (owner : a.model? = some m) : a ∈ ofModel config m := by
  rcases List.mem_append.mp ha with crud | inputs
  · obtain ⟨-, crud⟩ := List.mem_ite_nil_left.mp crud
    rcases List.mem_append.mp crud with crud | crud
    · obtain ⟨n, -, crud⟩ := List.mem_flatMap.mp crud
      rw [model?_of_mem_ofModel crud] at owner
      exact Option.some.inj owner ▸ crud
    · rw [model?_of_mem_shared crud] at owner
      cases owner
  · obtain ⟨-, inputs⟩ := List.mem_ite_nil_left.mp inputs
    obtain rfl := List.mem_singleton.mp inputs
    cases owner

theorem ofModel_nodup (config : Config) (m : Model) : (ofModel config m).Nodup := by
  have operations := Plan.operations_surviving_nodup config.crud m.name
  have types : (ModelIndex.presentTypes (Plan.surviving config.crud m.name)).Nodup := by
    have every : RootType.all.Nodup := by decide
    exact every.filter _
  have resolvers : ((Plan.surviving config.crud m.name).operations.map (resolver m)).Nodup :=
    operations.map fun o p same => (Artifact.resolver.inj same).2
  have indexes : ((ModelIndex.presentTypes (Plan.surviving config.crud m.name)).map
      (typeIndex m)).Nodup := types.map fun t u same => (Artifact.typeIndex.inj same).2
  -- Beyond the two lists only the constructors have to be told apart.
  rw [ofModel, List.nodup_cons, List.nodup_append, List.nodup_append]
  refine ⟨by simp, ⟨resolvers, indexes, ?_⟩, List.nodup_singleton _, ?_⟩
  · intro a ha b hb
    obtain ⟨o, -, rfl⟩ := List.mem_map.mp ha
    obtain ⟨t, -, rfl⟩ := List.mem_map.mp hb
    intro same
    cases same
  · intro a ha b hb
    obtain rfl := List.mem_singleton.mp hb
    rcases List.mem_append.mp ha with ha | ha
    · obtain ⟨o, -, rfl⟩ := List.mem_map.mp ha
      intro same
      cases same
    · obtain ⟨t, -, rfl⟩ := List.mem_map.mp ha
      intro same
      cases same

theorem flatMap_ofModel_nodup (h : document.IsNamed) :
    (document.models.flatMap (ofModel config)).Nodup := by
  refine List.nodup_flatMap.mpr ⟨fun m _ => ofModel_nodup config m, ?_⟩
  refine (List.Nodup.of_map _ h.distinct).imp ?_
  intro m n other a hm hn
  exact other (Option.some.inj ((model?_of_mem_ofModel hm).symm.trans (model?_of_mem_ofModel hn)))

theorem shared_nodup (config : Config) : (shared config).Nodup := by
  rw [shared]
  cases config.crud.generateAutocrud <;> simp

theorem inOrder_nodup (h : document.IsNamed) : (inOrder document config).Nodup := by
  have crud : (document.models.flatMap (ofModel config) ++ shared config).Nodup := by
    refine List.nodup_append.mpr ⟨flatMap_ofModel_nodup h, shared_nodup config, ?_⟩
    rintro a ha b hb rfl
    obtain ⟨m, -, ha⟩ := List.mem_flatMap.mp ha
    have impossible := (model?_of_mem_ofModel ha).symm.trans (model?_of_mem_shared hb)
    cases impossible
  have inputs : inputTypes ∉ document.models.flatMap (ofModel config) ++ shared config :=
    fun member => (mem_ofCrud.mp member).1 rfl
  rw [inOrder]
  cases config.crud.isDisabled <;> cases config.inputs.isDisabled
  · exact crud.append (List.nodup_singleton _) (List.disjoint_singleton.mpr inputs)
  · simpa using crud
  · exact List.nodup_singleton _
  · exact List.nodup_nil

def directories : Artifact → List String
  | object m | modelIndex m => [m.name]
  | resolver m o => [m.name, o.rootType.directory]
  | typeIndex m t => [m.name, t.directory]
  | utilities | sharedObjects | registration | inputTypes => []

def fileName : Artifact → String
  | object _ => "object.base.ts"
  | resolver _ o => o.name ++ ".base.ts"
  | typeIndex .. | modelIndex _ => "index.ts"
  | utilities => "utils.ts"
  | sharedObjects => "objects.ts"
  | registration => "autocrud.ts"
  | inputTypes => "inputs.ts"

theorem parts_eq (a : Artifact) : a.parts = a.directories ++ [a.fileName] := by cases a <;> rfl

/-- A dot tells the name of a file from that of a directory. -/
theorem dot_mem_fileName (a : Artifact) : '.' ∈ a.fileName.toList := by
  cases a with
  | resolver m o => simp [fileName]
  | _ => simp only [fileName]; decide

theorem dot_notMem_directory (h : document.IsNamed) {a : Artifact} (ha : a.IsOf document) :
    ∀ d ∈ a.directories, '.' ∉ d.toList := by
  have name {m : Model} (hm : m ∈ document.models) : '.' ∉ m.name.toList :=
    (h.word m hm).notMem (by decide) (by decide)
  have directory (t : RootType) : '.' ∉ t.directory.toList := by cases t <;> decide
  cases a with
  | object m | modelIndex m => exact List.forall_mem_singleton.mpr (name ha)
  | resolver m o =>
    exact List.forall_mem_cons.mpr ⟨name ha, List.forall_mem_singleton.mpr (directory o.rootType)⟩
  | typeIndex m t =>
    exact List.forall_mem_cons.mpr ⟨name ha, List.forall_mem_singleton.mpr (directory t)⟩
  | _ => exact nofun

theorem fileName_ne_up (a : Artifact) : a.fileName ≠ ".." := by
  cases a with
  | resolver m o => cases o <;> simp only [fileName] <;> decide
  | _ => simp only [fileName]; decide

theorem parts_ne_up (h : document.IsNamed) {a : Artifact} (ha : a.IsOf document) :
    ∀ p ∈ a.parts, p ≠ ".." := by
  intro p hp
  rw [parts_eq] at hp
  rcases List.mem_append.mp hp with hp | hp
  · rintro rfl
    exact dot_notMem_directory h ha _ hp (by decide)
  · obtain rfl := List.mem_singleton.mp hp
    exact a.fileName_ne_up

/-- No artifact stands below another one, where a directory would have to be. -/
theorem parts_ne_append (h : document.IsNamed) {a b : Artifact} (hb : b.IsOf document)
    {more : List String} (some : more ≠ []) : b.parts ≠ a.parts ++ more := by
  intro below
  have directories : b.directories = a.parts ++ more.dropLast := by
    have shorter := congrArg List.dropLast below
    rwa [parts_eq b, List.dropLast_concat, List.dropLast_append_of_ne_nil some] at shorter
  have inside : a.fileName ∈ b.directories := by
    rw [directories, parts_eq a]
    simp
  exact dot_notMem_directory h hb _ inside a.dot_mem_fileName

/-- A path that leads below other parts begins with them. -/
theorem parts_eq_append (h : document.IsNamed) {a : Artifact} (ha : a.IsOf document)
    {front : List String} (hfront : ∀ p ∈ front, IsPart p) (nonempty : front ≠ []) {rest : String}
    (below : ofParts a.parts = ofParts front ++ "/" ++ rest) :
    a.parts = front ++ Text.parts '/' rest := by
  rw [← parts_ofParts (isPart_parts h ha) a.parts_ne_nil, below, parts_append,
    parts_ofParts hfront nonempty]

theorem parts_ne_nil_of_text (rest : String) : Text.parts '/' rest ≠ [] := by
  simp [Text.parts]

theorem begins_name_iff (h : document.IsNamed) {m : Model} (hm : m ∈ document.models)
    {a : Artifact} (ha : a.IsOf document) :
    Text.begins (m.name ++ "/") (ofParts a.parts) = true ↔ a.model? = some m := by
  have single : ∀ p ∈ [m.name], IsPart p := List.forall_mem_singleton.mpr (h.isPart hm)
  have front : ofParts [m.name] = m.name := String.intercalate_singleton
  rw [Text.begins_iff]
  constructor
  · rintro ⟨rest, below⟩
    rw [← front] at below
    have parts := parts_eq_append h ha single (List.cons_ne_nil _ _) below
    obtain ⟨part, more, text⟩ := List.exists_cons_of_ne_nil (parts_ne_nil_of_text rest)
    rw [text] at parts
    cases a with
    | object n | modelIndex n | resolver n _ | typeIndex n _ =>
      exact congrArg some (h.ext ha hm (List.cons.inj parts).1)
    | _ => cases (List.cons.inj parts).2
  · intro owner
    have headed : ∃ part more, a.parts = m.name :: part :: more := by
      cases a with
      | object n | modelIndex n | resolver n _ | typeIndex n _ =>
        obtain rfl := Option.some.inj owner
        exact ⟨_, _, rfl⟩
      | _ => cases owner
    obtain ⟨part, more, parts⟩ := headed
    exact ⟨ofParts (part :: more), by rw [parts, ofParts, String.intercalate_cons_cons]; rfl⟩

end Artifact

theorem mem_modelFiles_iff (h : document.IsNamed) {m : Model} (hm : m ∈ document.models)
    {f : OutputFile} : f ∈ modelFiles config m (Plan.surviving config.crud m.name) ↔
      ∃ a ∈ Artifact.ofModel config m, a.file document config = f := by
  rw [Artifact.modelFiles_eq h hm, List.mem_map]

theorem made_isLaidOut (h : document.IsNamed) :
    IsLaidOut document config (made document (Plan.build document config.crud) config) := by
  have made_of {f : OutputFile} (hf : f ∈ made document (Plan.build document config.crud) config) :
      ∃ a ∈ Artifact.inOrder document config, a.IsOf document ∧ a.file document config = f := by
    rw [Artifact.made_eq h] at hf
    obtain ⟨a, ha, rfl⟩ := List.mem_map.mp hf
    exact ⟨a, ha, Artifact.isOf_of_mem_inOrder ha, rfl⟩
  constructor
  case distinct =>
    rw [Artifact.made_eq h, List.map_map]
    refine (Artifact.inOrder_nodup h).map_on ?_
    intro a ha b hb same
    have ha' := Artifact.isOf_of_mem_inOrder ha
    have hb' := Artifact.isOf_of_mem_inOrder hb
    exact Artifact.parts_inj h ha' hb' (ofParts_inj (Artifact.isPart_parts h ha')
      (Artifact.isPart_parts h hb') a.parts_ne_nil b.parts_ne_nil same)
  case relative =>
    intro f hf
    obtain ⟨a, -, ha, rfl⟩ := made_of hf
    exact isAbsolute_ofParts (Artifact.isPart_parts h ha)
  case named =>
    intro f hf part hpart
    obtain ⟨a, -, ha, rfl⟩ := made_of hf
    have parted : Text.parts '/' (a.file document config).path = a.parts :=
      parts_ofParts (Artifact.isPart_parts h ha) a.parts_ne_nil
    rw [parted] at hpart
    have named := Artifact.isPart_parts h ha part hpart
    exact ⟨named.nonempty, named.notDot, Artifact.parts_ne_up h ha part hpart⟩
  case apart =>
    intro f hf g hg rest below
    obtain ⟨a, -, ha, rfl⟩ := made_of hf
    obtain ⟨b, -, hb, rfl⟩ := made_of hg
    exact Artifact.parts_ne_append h hb (Artifact.parts_ne_nil_of_text rest)
      (Artifact.parts_eq_append h hb (Artifact.isPart_parts h ha) a.parts_ne_nil below)
  case owned =>
    intro m hm f hf
    obtain ⟨a, ha, rfl⟩ := (mem_modelFiles_iff h hm).mp hf
    have member : a.IsOf document := Artifact.isOf_of_mem_ofModel hm ha
    exact (Artifact.begins_name_iff h hm member).mpr (Artifact.model?_of_mem_ofModel ha)
  case foreign =>
    intro m hm n hn other f hf
    obtain ⟨a, ha, rfl⟩ := (mem_modelFiles_iff h hn).mp hf
    refine Bool.eq_false_iff.mpr fun below => other ?_
    have owner := (Artifact.begins_name_iff h hm (Artifact.isOf_of_mem_ofModel hn ha)).mp below
    exact Option.some.inj ((Artifact.model?_of_mem_ofModel ha).symm.trans owner)
  case own =>
    intro m hm f hf below
    obtain ⟨a, ha, member, rfl⟩ := made_of hf
    have owner := (Artifact.begins_name_iff h hm member).mp below
    exact (mem_modelFiles_iff h hm).mpr ⟨a, Artifact.mem_ofModel_of_model? ha owner, rfl⟩

/-- A run keeps its files apart from each other, and its resolvers too. -/
theorem run_isApart (document : Document) (config : Config) (h : document.IsNamed) :
    IsLaidOut document config (made document (Plan.build document config.crud) config) ∧
      ((Plan.build document config.crud).resolvers.map (·.name)).Nodup ∧
      ∀ (o p : Operation) (model other : String),
        o.resolverName model = p.resolverName other → o = p ∧ model = other := by
  refine ⟨made_isLaidOut h, Plan.resolverNames_nodup config.crud h.distinct, ?_⟩
  intro o p model other same
  exact Operation.resolverName_inj same

/-- One name begins the other, and ends like the name of an operation. -/
def nestedNames : Document :=
  { models := ["User", "UserMany"].map fun name => { name, fields := [] } }

theorem run_isApart_nestedNames :
    nestedNames.IsNamed ∧
      (made nestedNames (Plan.build nestedNames {}) {}).length = 34 ∧
      IsLaidOut nestedNames {} (made nestedNames (Plan.build nestedNames {}) {}) ∧
      ((Plan.build nestedNames {}).resolvers.map (·.name)).Nodup := by
  have named : nestedNames.IsNamed := by
    refine ⟨?_, by decide⟩
    intro m hm
    obtain ⟨name, hname, rfl⟩ := List.mem_map.mp hm
    rcases List.mem_pair.mp hname with rfl | rfl
    · exact Text.IsWord.of_isIdentifier (by decide)
    · exact Text.IsWord.of_isIdentifier (by decide)
  have apart := run_isApart nestedNames {} named
  exact ⟨named, by decide +kernel, apart.1, apart.2.1⟩

end GraphqlCrud.Output
