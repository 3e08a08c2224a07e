import GraphqlCrud.Proofs.Output.Placement
/-!
What the files of one model depend on. Of two runs that have a model in common, each writes the same
files below the model's name when they agree on the options that these files are made by, whatever
else the two schemas hold.
-/
namespace GraphqlCrud.Output

open Schema GraphqlCrud.Path

/-- The files below a directory, in their order. -/
def below (directory : String) (files : List OutputFile) : List OutputFile :=
  files.filter fun f => Text.begins (directory ++ "/") f.path

theorem filter_inGroupOrder (p : OutputFile → Bool) (files : List OutputFile) :
    (inGroupOrder files).filter p = inGroupOrder (files.filter p) := by
  rw [inGroupOrder, inGroupOrder, List.filter_flatMap]
  apply List.flatMap_congr
  intro g _
  exact List.filter_comm _ _ _

theorem inGroupOrder_of_model {files : List OutputFile} (h : ∀ f ∈ files, f.group = .model) :
    inGroupOrder files = files := by
  have among (g : FileGroup) : files.filter (·.group == g) = if g = .model then files else [] := by
    split
    · next same =>
      rw [List.filter_eq_self]
      intro f hf
      rw [h f hf, same, beq_self_eq_true]
    · next other =>
      rw [List.filter_eq_nil_iff]
      intro f hf same
      exact other ((h f hf).symm.trans (beq_iff_eq.mp same)).symm
  simp [inGroupOrder, FileGroup.all, among]

namespace Artifact

variable {document other : Document} {config config' : Config}

theorem filter_ofModel (config : Config) (m n : Model) :
    (ofModel config n).filter (·.model? = some m) = if n = m then ofModel config m else [] := by
  split
  · next same =>
    subst same
    rw [List.filter_eq_self]
    intro a ha
    exact decide_eq_true (model?_of_mem_ofModel ha)
  · next differ =>
    rw [List.filter_eq_nil_iff]
    intro a ha owner
    have both := (model?_of_mem_ofModel ha).symm.trans (of_decide_eq_true owner)
    exact differ (Option.some.inj both)

/-- Among models that are all different, each has its artifacts once. -/
theorem filter_flatMap_ofModel {m : Model} {models : List Model} (distinct : models.Nodup)
    (hm : m ∈ models) :
    (models.flatMap (ofModel config)).filter (·.model? = some m) = ofModel config m := by
  simp only [List.filter_flatMap, filter_ofModel]
  induction models with
  | nil => cases hm
  | cons n models ih =>
    obtain ⟨fresh, distinct⟩ := List.nodup_cons.mp distinct
    rw [List.flatMap_cons]
    by_cases same : n = m
    · have later : (models.flatMap fun n => if n = m then ofModel config m else []) = [] := by
        rw [List.flatMap_eq_nil_iff]
        intro k hk
        have differ : k ≠ m := by
          rintro rfl
          exact fresh (same ▸ hk)
        exact if_neg differ
      rw [if_pos same, later, List.append_nil]
    · have later : m ∈ models := (List.mem_cons.mp hm).resolve_left (Ne.symm same)
      rw [if_neg same, List.nil_append, ih distinct later]

/-- Of the artifacts of a run those of a model stand in the order of the model. -/
theorem filter_inOrder (h : document.IsNamed) {m : Model} (hm : m ∈ document.models) :
    (inOrder document config).filter (·.model? = some m) =
      if config.crud.isDisabled then [] else ofModel config m := by
  have shares : (shared config).filter (·.model? = some m) = [] := by
    rw [List.filter_eq_nil_iff]
    intro a ha owner
    have both := (model?_of_mem_shared ha).symm.trans (of_decide_eq_true owner)
    cases both
  have inputs : [inputTypes].filter (·.model? = some m) = [] := by simp [model?]
  have models : (document.models.flatMap (ofModel config)).filter (·.model? = some m) =
      ofModel config m := filter_flatMap_ofModel (List.Nodup.of_map _ h.distinct) hm
  rw [inOrder]
  cases config.crud.isDisabled <;> cases config.inputs.isDisabled <;>
    simp [List.filter_append, models, shares, inputs]

theorem ofModel_congr (crud : config.crud = config'.crud) (m : Model) :
    ofModel config m = ofModel config' m := by
  rw [ofModel, ofModel, crud]

/-- What is made for a model reads the options of resolvers and where the builder is, and nothing
else of the schema and the options. -/
theorem file_congr (document other : Document) (crud : config.crud = config'.crud)
    (builder : config.global.builderPath = config'.global.builderPath) {m : Model} {a : Artifact}
    (ha : a ∈ ofModel config m) : a.file document config = a.file other config' := by
  have source : a.source document config = a.source other config' := by
    rcases mem_ofModel.mp ha with rfl | ⟨o, -, rfl⟩ | ⟨t, -, rfl⟩ | rfl
    · rw [Artifact.source, Artifact.source, crud]
    · simp only [Artifact.source, ResolverFile.file, crud, builder]
    · rw [Artifact.source, Artifact.source, crud]
    · rw [Artifact.source, Artifact.source, crud]
  rw [Artifact.file, Artifact.file, source]

end Artifact

/-- Below the name of a model there are the files of its artifacts and no others. -/
theorem below_preview {document : Document} (config : Config) (h : document.IsNamed) {m : Model}
    (hm : m ∈ document.models) :
    below m.name (preview document config) =
      if config.crud.isDisabled then []
      else (Artifact.ofModel config m).map (Artifact.file document config) := by
  have owned : ((Artifact.inOrder document config).map (Artifact.file document config)).filter
      (fun f => Text.begins (m.name ++ "/") f.path) =
        ((Artifact.inOrder document config).filter (·.model? = some m)).map
          (Artifact.file document config) := by
    rw [List.filter_map]
    refine congrArg _ (List.filter_congr ?_)
    intro a ha
    rw [Bool.eq_iff_iff, decide_eq_true_iff]
    exact Artifact.begins_name_iff h hm (Artifact.isOf_of_mem_inOrder ha)
  rw [below, preview, files, filter_inGroupOrder, Artifact.made_eq h, owned,
    Artifact.filter_inOrder h hm]
  split
  · rfl
  · apply inGroupOrder_of_model
    intro f hf
    obtain ⟨a, ha, rfl⟩ := List.mem_map.mp hf
    rcases Artifact.mem_ofModel.mp ha with rfl | ⟨o, -, rfl⟩ | ⟨t, -, rfl⟩ | rfl <;> rfl

/-- Two runs that share a model write the same files for it in the same order, if they have the
same options for resolvers and the same builder. -/
theorem subtree_isIndependent {document other : Document} {config config' : Config}
    (h : document.IsNamed) (h' : other.IsNamed) {m : Model} (hm : m ∈ document.models)
    (hm' : m ∈ other.models) (crud : config.crud = config'.crud)
    (builder : config.global.builderPath = config'.global.builderPath) :
    below m.name (preview document config) = below m.name (preview other config') := by
  rw [below_preview config h hm, below_preview config' h' hm', ← crud,
    ← Artifact.ofModel_congr crud]
  split
  · rfl
  · apply List.map_congr_left
    intro a ha
    exact Artifact.file_congr document other crud builder ha

/-- The models of `nestedNames` in another order, one of them with a field, beside an enum. -/
def nestedNamesReversed : Document :=
  { models := [
      { name := "UserMany", fields := [{ name := "id", kind := .scalar, type := "Int" }] },
      { name := "User", fields := [] }]
    declaredEnums := [{ name := "Role", values := ["ADMIN"] }] }

/-- Options that make no input types, and let inputs change other models along. -/
def resolversOnly : Config :=
  { global := { noNestedInput := false }, inputs := { isDisabled := true } }

theorem subtree_isIndependent_ofOrder :
    nestedNames.IsNamed ∧ nestedNamesReversed.IsNamed ∧
      (below "User" (preview nestedNames {})).length = 15 ∧
      preview nestedNames {} ≠ preview nestedNamesReversed resolversOnly ∧
      below "User" (preview nestedNames {}) =
        below "User" (preview nestedNamesReversed resolversOnly) := by
  have word : ∀ name ∈ ["User", "UserMany"], Text.IsWord name := by
    intro name hname
    rcases List.mem_pair.mp hname with rfl | rfl
    · exact Text.IsWord.of_isIdentifier (by decide)
    · exact Text.IsWord.of_isIdentifier (by decide)
  have named : nestedNames.IsNamed := by
    refine ⟨?_, by decide⟩
    intro m hm
    obtain ⟨name, hname, rfl⟩ := List.mem_map.mp hm
    exact word name hname
  have named' : nestedNamesReversed.IsNamed := by
    refine ⟨?_, by decide⟩
    intro m hm
    rcases List.mem_pair.mp hm with rfl | rfl
    · exact word "UserMany" (by decide)
    · exact word "User" (by decide)
  have user : ({ name := "User", fields := [] } : Model) ∈ nestedNames.models := by decide
  have files : below "User" (preview nestedNames {}) = _ :=
    below_preview (m := { name := "User", fields := [] }) {} named user
  have count : (below "User" (preview nestedNames {})).length = 15 := by
    rw [files]
    decide
  have differ : preview nestedNames {} ≠ preview nestedNamesReversed resolversOnly := by
    intro same
    have file : IsFile (preview nestedNames {}) Artifact.inputTypes.parts :=
      (isFile_iff (a := .inputTypes) {} named trivial).mpr ⟨trivial, trivial, rfl⟩
    rw [same] at file
    have made := (isFile_iff (a := .inputTypes) resolversOnly named' trivial).mp file
    cases made.enabled
  have independent : below "User" (preview nestedNames {}) =
      below "User" (preview nestedNamesReversed resolversOnly) :=
    subtree_isIndependent (m := { name := "User", fields := [] }) named named' user (by decide) rfl
      rfl
  exact ⟨named, named', count, differ, independent⟩

end GraphqlCrud.Output
