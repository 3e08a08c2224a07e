import Mathlib.Tactic.ByContra
import GraphqlCrud.Lint.Standard
import GraphqlCrud.Proofs.Lint.Repetition
/-!
Which documents the standard lints find errors in. Three of the lints only warn.
-/
namespace GraphqlCrud

@[simp] theorem Finding.isError_ofLint (name : String) (f : Finding) :
    (f.ofLint name).isError = f.isError := rfl

namespace Lint

open Schema

def Passes (l : Lint) (document : Document) (config : Config) : Prop :=
  ∀ f ∈ l.check document config, f.isError = false

theorem passes_iff_findings (l : Lint) (document : Document) (config : Config) :
    l.Passes document config ↔ ∀ f ∈ l.findings document config, f.isError = false := by
  simp [Passes, findings]

theorem Collision.isError_finding (c : Collision) :
    c.finding.isError = decide (c.earlier = c.model) := by
  unfold Collision.finding
  split
  · next same => simp [same]; rfl
  · next other => simp [other]; rfl

theorem duplicateModel_passes_iff (document : Document) (config : Config) :
    duplicateModel.Passes document config ↔
      RepeatsAreHidden (document.models.map (·.name)) := by
  rw [repeatsAreHidden_iff]
  simp [Passes, duplicateModel, Collision.isError_finding]

theorem reservedName_passes (document : Document) (config : Config) :
    reservedName.Passes document config := by
  intro f hf
  obtain ⟨m, -, hm⟩ := List.mem_filterMap.mp hf
  obtain ⟨meaning, -, rfl⟩ := Option.map_eq_some_iff.mp hm
  rfl

theorem emptyModel_passes (document : Document) (config : Config) :
    emptyModel.Passes document config := by
  intro f hf
  obtain ⟨m, -, rfl⟩ := List.mem_map.mp hf
  rfl

theorem unusedFilter_passes (document : Document) (config : Config) :
    unusedFilter.Passes document config := by
  intro f hf
  obtain ⟨⟨key, entries⟩, -, hf⟩ := List.mem_flatMap.mp hf
  obtain ⟨entry, -, rfl⟩ := List.mem_map.mp hf
  rfl

def RelationsResolve (document : Document) : Prop :=
  ∀ m ∈ document.models, ∀ f ∈ m.fields, f.isRelation = true →
    ∃ target ∈ document.models, target.name = f.type

theorem isDangling_eq_true_iff (document : Document) (f : Field) :
    isDangling document f = true ↔
      f.isRelation = true ∧ ¬ ∃ target ∈ document.models, target.name = f.type := by
  simp [isDangling, Document.model?]

theorem unknownRelation_passes_iff (document : Document) (config : Config) :
    unknownRelation.Passes document config ↔ RelationsResolve document := by
  constructor
  · intro passes m hm f hf relation
    by_contra unresolved
    have dangling := (isDangling_eq_true_iff document f).mpr ⟨relation, unresolved⟩
    have found : danglingFinding m f ∈ unknownRelation.check document config :=
      List.mem_flatMap.mpr
        ⟨m, hm, List.mem_map_of_mem (List.mem_filter.mpr ⟨hf, dangling⟩)⟩
    exact Bool.noConfusion (passes _ found)
  · intro resolve f hf
    obtain ⟨m, hm, hf⟩ := List.mem_flatMap.mp hf
    obtain ⟨field, hfield, -⟩ := List.mem_map.mp hf
    obtain ⟨member, dangling⟩ := List.mem_filter.mp hfield
    obtain ⟨relation, unresolved⟩ := (isDangling_eq_true_iff document field).mp dangling
    exact absurd (resolve m hm field member relation) unresolved

theorem standard_pass_iff (document : Document) (config : Config) :
    (∀ l ∈ standard, l.Passes document config) ↔
      RepeatsAreHidden (document.models.map (·.name)) ∧ RelationsResolve document := by
  simp [standard, reservedName_passes, emptyModel_passes, unusedFilter_passes,
    duplicateModel_passes_iff, unknownRelation_passes_iff]

end Lint
end GraphqlCrud
