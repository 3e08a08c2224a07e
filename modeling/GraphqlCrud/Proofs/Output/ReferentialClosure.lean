import GraphqlCrud.Proofs.Output.Accesses
import GraphqlCrud.Proofs.Output.Exports
/-!
The files of a run refer to each other without gaps: an index names what exists, the table of
descriptors takes what an index exports, and what is filtered out is named nowhere.
-/
namespace GraphqlCrud.Output

open Schema Text Script GraphqlCrud.Path ModelIndex Registration

/-- What holds of the files of a document whose models keep what the configuration says. -/
structure IsClosed (document : Document) (config : Config) (files : List OutputFile) : Prop where
  /-- The plan lists the survivors of every model. -/
  plan : (Plan.build document config.crud).models =
    document.models.map fun m => Plan.surviving config.crud m.name
  /-- The index of a root type is there when an operation survives, and re-exports the survivors
  in the order of the plan. -/
  typeIndex : ∀ m ∈ document.models, ∀ t content,
    HasFile files (ofParts [m.name, t.directory, "index.ts"]) content ↔
      Plan.survivors config.crud m.name t ≠ [] ∧
        content = ended ((Plan.survivors config.crud m.name t).map (reexportLine m.name t))
  /-- No symbol is exported twice. -/
  distinct : ∀ m ∈ document.models, (exportedSymbols config.crud m.name).Nodup
  /-- The file that a re-export names is there, and declares both symbols. -/
  resolver : ∀ m ∈ document.models, ∀ t : RootType, ∀ o ∈ Plan.survivors config.crud m.name t,
    IsFile files [m.name, t.directory, o.name ++ ".base.ts"] ∧
      ∀ content, HasFile files (ofParts [m.name, t.directory, o.name ++ ".base.ts"]) content →
        Declares content (fieldSymbol m.name t o) ∧
          Declares content (fieldSymbol m.name t o ++ "Object")
  /-- The index of a model is there, and re-exports the indexes that are there. -/
  modelIndex : ∀ m ∈ document.models, IsFile files [m.name, "index.ts"] ∧
    ∀ content, HasFile files (ofParts [m.name, "index.ts"]) content → ∀ t : RootType,
      starLine t.directory ∈ lines content ↔ IsFile files [m.name, t.directory, "index.ts"]
  /-- The file of descriptors is made on demand, and holds the table. -/
  table : (IsFile files ["autocrud.ts"] ↔ config.crud.generateAutocrud = true) ∧
    ∀ content, HasFile files (ofParts ["autocrud.ts"]) content →
      HasLineBeginning content (ended (tableLines config.crud (document.models.map (·.name))))
  /-- Every dot in the table belongs to an access, and what a model's access takes is exported
  through the index of the model. -/
  accesses : ∀ line ∈ tableLines config.crud (document.models.map (·.name)),
    ('.' ∈ line.toList → ∃ model symbol, IsAccess line model symbol) ∧
      ∀ model symbol, IsAccess line model symbol →
        model ∈ document.models.map (·.name) ∧ Exports files [model] "index.ts" symbol
  /-- The table lists a resolver that survives once, and no other. -/
  entries : ∀ m ∈ document.models, ∀ o,
    (tableLines config.crud (document.models.map (·.name))).count
        (entryLine m.name o.rootType o) =
      if config.crud.keepsName (o.resolverName m.name) then 1 else 0
  /-- What is filtered out has no file, and no index names it. -/
  absent : ∀ m ∈ document.models, ∀ o, config.crud.keepsName (o.resolverName m.name) = false →
    (∀ t : RootType, ¬ IsFile files [m.name, t.directory, o.name ++ ".base.ts"]) ∧
      ∀ t content, HasFile files (ofParts [m.name, t.directory, "index.ts"]) content →
        reexportLine m.name t o ∉ lines content

variable {document : Document} {config : Config}

theorem isLine_reexportLine {model : String} (h : IsWord model) (t : RootType) (o : Operation) :
    IsLine (reexportLine model t o) := by
  have symbol := (isWord_fieldSymbol h t o).isLine
  have first : IsLine ("export \x7b " ++ fieldSymbol model t o ++ ", ") :=
    (IsLine.append (by decide) symbol).append (by decide)
  have second : IsLine ("export \x7b " ++ fieldSymbol model t o ++ ", " ++ fieldSymbol model t o ++
      "Object \x7d from './") := (first.append symbol).append (by decide)
  exact (second.append (isWord_operation o).isLine).append (by decide)

theorem reexportLine_inj {model : String} {t : RootType} {o p : Operation}
    (same : reexportLine model t o = reexportLine model t p) : o = p := by
  simp only [reexportLine, String.append_assoc, String.append_right_inj] at same
  exact operation_eq_of_symbol same

theorem lines_typeIndex {model : String} (h : IsWord model) (t : RootType) (os : List Operation) :
    lines (ended (os.map (reexportLine model t))) = os.map (reexportLine model t) := by
  apply lines_ended
  intro line hline
  obtain ⟨o, -, rfl⟩ := List.mem_map.mp hline
  exact isLine_reexportLine h t o

theorem hasFile_typeIndex (h : document.IsNamed) (enabled : config.crud.isDisabled = false)
    {m : Model} (hm : m ∈ document.models) (t : RootType) (content : String) :
    HasFile (preview document config) (ofParts [m.name, t.directory, "index.ts"]) content ↔
      Plan.survivors config.crud m.name t ≠ [] ∧
        content = ended ((Plan.survivors config.crud m.name t).map (reexportLine m.name t)) := by
  have member : (Artifact.typeIndex m t).IsOf document := hm
  refine (hasFile_iff config h member content).trans ?_
  constructor
  · rintro ⟨made, rfl⟩
    exact ⟨made.wanted, render_typeFile made.wanted⟩
  · rintro ⟨wanted, rfl⟩
    exact ⟨⟨hm, wanted, enabled⟩, render_typeFile wanted⟩

theorem isFile_typeIndex (h : document.IsNamed) (enabled : config.crud.isDisabled = false)
    {m : Model} (hm : m ∈ document.models) (t : RootType) :
    IsFile (preview document config) [m.name, t.directory, "index.ts"] ↔
      Plan.survivors config.crud m.name t ≠ [] := by
  have member : (Artifact.typeIndex m t).IsOf document := hm
  refine (isFile_iff config h member).trans ?_
  exact ⟨fun made => made.wanted, fun wanted => ⟨hm, wanted, enabled⟩⟩

theorem declares_resolver (config : Config) (model : String) (o : Operation) :
    Declares (ResolverFile.file config (ResolverShape.build model o config.crud)).render
        (fieldSymbol model o.rootType o) ∧
      Declares (ResolverFile.file config (ResolverShape.build model o config.crud)).render
        (fieldSymbol model o.rootType o ++ "Object") := by
  have names := ResolverFile.constantNames_file config model o
  constructor
  · apply declares_of_mem_constantNames
    exact names ▸ List.mem_cons_of_mem _ (List.mem_cons_of_mem _ List.mem_cons_self)
  · apply declares_of_mem_constantNames
    exact names ▸ List.mem_cons_of_mem _ List.mem_cons_self

theorem mem_survivingTypes {config : CrudConfig} {model : String} {t : RootType} :
    t ∈ survivingTypes config model ↔ Plan.survivors config model t ≠ [] := by
  simp [survivingTypes]

theorem starLine_directory_inj {t u : RootType}
    (same : starLine t.directory = starLine u.directory) : t = u := by
  revert same
  cases t <;> cases u <;> decide

theorem lines_modelIndex (config : CrudConfig) (model : String) :
    lines (file (Plan.surviving config model)).render =
      starLine "object.base" ::
        (survivingTypes config model).map fun t => starLine t.directory := by
  rw [render_file]
  apply lines_ended
  refine List.forall_mem_cons.mpr ⟨by decide, ?_⟩
  intro line hline
  obtain ⟨t, -, rfl⟩ := List.mem_map.mp hline
  cases t <;> decide

theorem starLine_mem_modelIndex {config : CrudConfig} {model : String} {t : RootType} :
    starLine t.directory ∈ lines (file (Plan.surviving config model)).render ↔
      Plan.survivors config model t ≠ [] := by
  have other : starLine t.directory ≠ starLine "object.base" := by cases t <;> decide
  rw [lines_modelIndex, List.mem_cons, or_iff_right other, List.mem_map, ← mem_survivingTypes]
  constructor
  · rintro ⟨u, hu, same⟩
    exact starLine_directory_inj same ▸ hu
  · intro ht
    exact ⟨t, ht, rfl⟩

/-- Beside the directory of a root type there is no file of the same name. -/
theorem not_isFile_directory (h : document.IsNamed) {m : Model} (hm : m ∈ document.models)
    (t : RootType) : ¬ IsFile (preview document config) [m.name, t.directory ++ ".ts"] := by
  intro file
  have name := h.isPart hm
  have ending : IsPart (t.directory ++ ".ts") := by
    cases t <;> exact ⟨by decide, by decide, by decide⟩
  obtain ⟨a, -, parts⟩ := exists_artifact h
    (List.forall_mem_cons.mpr ⟨name, List.forall_mem_singleton.mpr ending⟩)
    (List.cons_ne_nil _ _) file
  have object : t.directory ++ ".ts" ≠ "object.base.ts" := by cases t <;> decide
  have index : t.directory ++ ".ts" ≠ "index.ts" := by cases t <;> decide
  cases a <;>
    simp only [Artifact.parts, List.cons.injEq, reduceCtorEq, and_true, and_false] at parts
  case object => exact object parts.2.symm
  case modelIndex => exact index parts.2.symm

theorem not_isFile_resolver (h : document.IsNamed) {m : Model} (hm : m ∈ document.models)
    {o : Operation} (dropped : config.crud.keepsName (o.resolverName m.name) = false)
    (t : RootType) :
    ¬ IsFile (preview document config) [m.name, t.directory, o.name ++ ".base.ts"] := by
  intro file
  have name := h.isPart hm
  obtain ⟨a, made, parts⟩ := exists_artifact h
    (List.forall_mem_cons.mpr ⟨name, List.forall_mem_cons.mpr
      ⟨Artifact.isPart_directory t, List.forall_mem_singleton.mpr (Artifact.isPart_stem o)⟩⟩)
    (List.cons_ne_nil _ _) file
  cases a <;>
    simp only [Artifact.parts, List.cons.injEq, reduceCtorEq, and_true, and_false] at parts
  case resolver n p =>
    obtain ⟨same, -, stem⟩ := parts
    have kept : config.crud.keepsName (p.resolverName n.name) = true := made.wanted
    rw [same, Artifact.name_stem_inj stem, dropped] at kept
    cases kept
  case typeIndex => exact Artifact.stem_ne_index o parts.2.2.symm

/-- Every symbol of a model is exported through the model's index. -/
theorem exports_of_mem (h : document.IsNamed) (enabled : config.crud.isDisabled = false)
    {m : Model} (hm : m ∈ document.models) {symbol : String}
    (member : symbol ∈ exportedSymbols config.crud m.name) :
    Exports (preview document config) [m.name] "index.ts" symbol := by
  have index : HasFile (preview document config) (ofParts ([m.name] ++ ["index.ts"])) _ :=
    hasFile_of_isMade h (a := .modelIndex m) ⟨hm, trivial, enabled⟩
  rcases List.mem_cons.mp member with rfl | member
  · -- The object takes one step: the index of the model names its file.
    have object : HasFile (preview document config) (ofParts ([m.name] ++ ["object.base.ts"])) _ :=
      hasFile_of_isMade h (a := .object m) ⟨hm, trivial, enabled⟩
    have names := ModelObject.constantNames_file config.crud m
    have line :
        starLine "object.base" ∈ lines (file (Plan.surviving config.crud m.name)).render := by
      rw [lines_modelIndex]
      exact List.mem_cons_self
    refine .all index line (.file ⟨_, object⟩) (.declared object ?_)
    apply declares_of_mem_constantNames
    exact names ▸ List.mem_singleton.mpr rfl
  · -- The symbols of a resolver take two: the index of the model names that of the root type.
    obtain ⟨o, ho, named⟩ := List.mem_flatMap.mp member
    have kept := Plan.mem_operations_surviving.mp ho
    have survives : o ∈ Plan.survivors config.crud m.name o.rootType :=
      Plan.mem_survivors.mpr ⟨rfl, kept⟩
    have some_survivor := List.ne_nil_of_mem survives
    have typeIndex : HasFile (preview document config)
        (ofParts ([m.name] ++ [o.rootType.directory] ++ ["index.ts"])) _ :=
      (hasFile_typeIndex h enabled hm o.rootType _).mpr ⟨some_survivor, rfl⟩
    have reexport : reexportLine m.name o.rootType o ∈ lines (ended
        ((Plan.survivors config.crud m.name o.rootType).map (reexportLine m.name o.rootType))) := by
      rw [lines_typeIndex (h.word m hm)]
      exact List.mem_map_of_mem survives
    rw [reexportLine_eq] at reexport
    have source : HasFile (preview document config)
        (ofParts ([m.name] ++ [o.rootType.directory] ++ [o.name ++ ".base.ts"])) _ :=
      hasFile_of_isMade h (a := .resolver m o) ⟨hm, kept, enabled⟩
    obtain ⟨field, object⟩ := declares_resolver config m.name o
    have stem : o.name ++ ".base.ts" = o.name ++ ".base" ++ ".ts" := by cases o <;> decide
    rw [stem] at source
    refine .all index (starLine_mem_modelIndex.mpr some_survivor)
      (.index (not_isFile_directory h hm o.rootType)) ?_
    refine .listed typeIndex reexport named (.file ⟨_, source⟩) (.declared source ?_)
    rcases List.mem_pair.mp named with rfl | rfl
    · exact field
    · exact object

theorem hasLineBeginning_table (h : document.IsNamed) :
    HasLineBeginning (Registration.file (Plan.build document config.crud) config).render
      (ended (tableLines config.crud (document.models.map (·.name)))) := by
  have declared : Declaration.constant (descriptors (Plan.build document config.crud)) ∈
      (Registration.file (Plan.build document config.crud) config).declarations :=
    List.mem_append_left _ (List.mem_cons_of_mem _ List.mem_cons_self)
  have written : Layout.render
      (Declaration.constant (descriptors (Plan.build document config.crud))).blocks =
        ended (tableLines config.crud (document.models.map (·.name))) := by
    rw [Layout.render_eq_ended, renderedLines_descriptors h.word]
  have begins : HasLineBeginning (Layout.render
      (Declaration.constant (descriptors (Plan.build document config.crud))).blocks)
        (ended (tableLines config.crud (document.models.map (·.name)))) := by
    rw [written]
    simpa only [String.append_empty] using hasLineBeginning_append _ ""
  exact hasLineBeginning_render begins (render_mem_sections declared)

/-- The files of a run are closed, whatever the filters keep. -/
theorem preview_isClosed (document : Document) (config : Config) (h : document.IsNamed)
    (enabled : config.crud.isDisabled = false) :
    IsClosed document config (preview document config) := by
  have word : ∀ name ∈ document.models.map (·.name), IsWord name := by
    intro name hname
    obtain ⟨m, hm, rfl⟩ := List.mem_map.mp hname
    exact h.word m hm
  constructor
  case plan => exact Plan.models_build document config.crud
  case typeIndex => exact fun m hm t content => hasFile_typeIndex h enabled hm t content
  case distinct => exact fun m _ => exportedSymbols_nodup config.crud m.name
  case resolver =>
    intro m hm t o ho
    obtain ⟨rfl, kept⟩ := Plan.mem_survivors.mp ho
    have member : (Artifact.resolver m o).IsOf document := hm
    refine ⟨(isFile_iff config h member).mpr ⟨hm, kept, enabled⟩, ?_⟩
    intro content file
    obtain ⟨-, rfl⟩ := (hasFile_iff config h member content).mp file
    exact declares_resolver config m.name o
  case modelIndex =>
    intro m hm
    have member : (Artifact.modelIndex m).IsOf document := hm
    refine ⟨(isFile_iff config h member).mpr ⟨hm, trivial, enabled⟩, ?_⟩
    intro content file t
    obtain ⟨-, rfl⟩ := (hasFile_iff config h member content).mp file
    rw [isFile_typeIndex h enabled hm]
    exact starLine_mem_modelIndex
  case table =>
    have member : Artifact.registration.IsOf document := trivial
    constructor
    · refine (isFile_iff config h member).trans ?_
      exact ⟨fun made => made.wanted, fun wanted => ⟨trivial, wanted, enabled⟩⟩
    · intro content file
      obtain ⟨-, rfl⟩ := (hasFile_iff config h member content).mp file
      exact hasLineBeginning_table h
  case accesses =>
    intro line hline
    refine ⟨isAccess_of_dot word hline, ?_⟩
    intro model symbol access
    obtain ⟨member, exported⟩ := access_tableLines word hline access
    refine ⟨member, ?_⟩
    obtain ⟨m, hm, rfl⟩ := List.mem_map.mp member
    exact exports_of_mem h enabled hm exported
  case entries =>
    intro m hm o
    exact count_entryLine config.crud h.distinct word (List.mem_map_of_mem hm) o
  case absent =>
    intro m hm o dropped
    refine ⟨not_isFile_resolver h hm dropped, ?_⟩
    intro t content hfile member
    obtain ⟨-, rfl⟩ := (hasFile_typeIndex h enabled hm t content).mp hfile
    rw [lines_typeIndex (h.word m hm)] at member
    obtain ⟨p, hp, same⟩ := List.mem_map.mp member
    have kept := (Plan.mem_survivors.mp hp).2
    rw [reexportLine_inj same, dropped] at kept
    cases kept

def twoModels : Document := { models := ["User", "Post"].map fun name => { name, fields := [] } }

def withoutPosts : Config := { crud := { excludeContaining := ["Post", "delete"] } }

theorem preview_isClosed_withoutPosts :
    Plan.survivors withoutPosts.crud "Post" .query = [] ∧
      IsClosed twoModels withoutPosts (preview twoModels withoutPosts) := by
  have named : twoModels.IsNamed := by
    refine ⟨?_, by decide⟩
    intro m hm
    simp only [twoModels, List.map_cons, List.map_nil, List.mem_cons, List.not_mem_nil,
      or_false] at hm
    rcases hm with rfl | rfl
    · exact IsWord.of_isIdentifier (by decide)
    · exact IsWord.of_isIdentifier (by decide)
  refine ⟨by decide +kernel, ?_⟩
  exact preview_isClosed twoModels withoutPosts named rfl

end GraphqlCrud.Output
