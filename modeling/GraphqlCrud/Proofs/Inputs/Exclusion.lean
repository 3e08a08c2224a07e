import GraphqlCrud.Proofs.Inputs.Lowering
import GraphqlCrud.Proofs.Inputs.UsedNames
/-!
How far the exclusion of a field reaches. One more name in the list of a model, or in the list for
all models, takes the fields of that name out of the declarations of the category that belong to the
model, or to any model; every other declaration stays as it is.
-/
namespace GraphqlCrud

open Schema

/-- One more name in the list of a key of a category, and nothing else. -/
structure Exclusions.Gains (category : InputCategory) (key lost : String)
    (before after : Exclusions) : Prop where
  otherCategories : ∀ c, c ≠ category → after.table c = before.table c
  otherKeys : ∀ k, k ≠ key → (after.table category).lookup k = (before.table category).lookup k
  ownKey : ∃ first last, ((before.table category).lookup key).getD [] = first ++ last ∧
    (after.table category).lookup key = some (first ++ lost :: last)

variable {category : InputCategory} {key lost : String} {before after : Exclusions}

theorem Exclusions.Gains.mem_list_iff (h : Gains category key lost before after)
    {c : InputCategory} {k field : String} :
    field ∈ ((after.table c).lookup k).getD [] ↔
      field ∈ ((before.table c).lookup k).getD [] ∨ (c = category ∧ k = key ∧ field = lost) := by
  by_cases sameCategory : c = category
  · subst sameCategory
    by_cases sameKey : k = key
    · subst sameKey
      obtain ⟨first, last, old, new⟩ := h.ownKey
      rw [old, new, Option.getD_some, List.mem_append, List.mem_cons, List.mem_append,
        or_left_comm, or_comm]
      simp only [true_and]
    · rw [h.otherKeys k sameKey]
      simp [sameKey]
  · rw [h.otherCategories c sameCategory]
    simp [sameCategory]

theorem Exclusions.Gains.mem_names_iff (h : Gains category key lost before after)
    {c : InputCategory} {model field : String} :
    field ∈ after.names c model ↔ field ∈ before.names c model ∨
      (c = category ∧ (key = allModels ∨ key = model) ∧ field = lost) := by
  simp only [names, List.mem_flatMap, List.mem_cons, List.not_mem_nil, or_false, exists_eq_or_imp,
    exists_eq_left, h.mem_list_iff, eq_comm (b := key)]
  tauto

/-- The configuration with other exclusions. -/
def Config.withExclusions (config : Config) (e : Exclusions) : Config :=
  { config with inputs := { config.inputs with excludedFields := e } }

namespace Inputs

/-- The list of the key counts for an input of the category with this owner. -/
def Counts (category : InputCategory) (key : String) (owner : Option Model)
    (c : Option InputCategory) : Prop :=
  c = some category ∧ ∃ m ∈ owner, key = Exclusions.allModels ∨ key = m.name

/-- The list of the key counts for the declaration. -/
def Reaches (document : Document) (category : InputCategory) (key : String)
    (d : InputDeclaration) : Prop :=
  Counts category key (owner? document d.name) d.category

/-- How a declaration changes that loses the fields of a name: they are left out, in the order of the
input, with those that were left out before. -/
structure LosesField (document : Document) (config : Config) (lost : String)
    (wide narrow : InputDeclaration) : Prop where
  name : narrow.name = wide.name
  clientName : narrow.clientName = wide.clientName
  category : narrow.category = wide.category
  fields : narrow.fields = wide.fields.filter (·.name != lost)
  dropped : ∃ input ∈ document.inputs, wide = declare document config input wide.name ∧
    narrow.dropped = (input.fields.filter fun f =>
      f.name == lost || dropRule document config wide.name f).map (·.name)

variable {document : Document} {config : Config}

theorem mem_excludedNames_iff (h : Exclusions.Gains category key lost config.inputs.excludedFields after)
    {owner : Option Model} {c : Option InputCategory} {field : String} :
    field ∈ excludedNames (config.withExclusions after) owner c ↔
      field ∈ excludedNames config owner c ∨ (Counts category key owner c ∧ field = lost) := by
  cases c with
  | none => simp [excludedNames, Counts]
  | some c =>
    cases owner with
    | none => simp [excludedNames, Counts]
    | some m =>
      have gained : field ∈ after.names c m.name ↔ _ := h.mem_names_iff
      simpa [excludedNames, Counts, Config.withExclusions, and_assoc] using gained

theorem dropRule_excluded (h : Exclusions.Gains category key lost config.inputs.excludedFields after)
    (name : String) (f : InputField) :
    dropRule document (config.withExclusions after) name f = true ↔
      dropRule document config name f = true ∨
        (Counts category key (owner? document name) (categoryOf? (owner? document name) name) ∧
          f.name = lost) := by
  simp only [dropRule, isDropped, Bool.or_eq_true, List.contains_iff_mem, mem_excludedNames_iff h]
  simp only [Config.withExclusions]
  tauto

theorem dropRule_counted (h : Exclusions.Gains category key lost config.inputs.excludedFields after)
    {name : String}
    (counted : Counts category key (owner? document name) (categoryOf? (owner? document name) name))
    (f : InputField) : dropRule document (config.withExclusions after) name f =
      (f.name == lost || dropRule document config name f) := by
  rw [Bool.eq_iff_iff, dropRule_excluded h, and_iff_right counted, Bool.or_eq_true, beq_iff_eq,
    or_comm]

/-- The declaration of an input loses the fields of the name if the list of the key counts for it. -/
theorem losesField_declare
    (h : Exclusions.Gains category key lost config.inputs.excludedFields after) {input : InputType}
    (member : input ∈ document.inputs) {name : String}
    (reached : Reaches document category key (declare document config input name)) :
    LosesField document config lost (declare document config input name)
      (declare document (config.withExclusions after) input name) where
  name := rfl
  clientName := rfl
  category := rfl
  fields := fields_declare_narrowed (· == lost) (dropRule_counted h reached) rfl input
  dropped := by
    refine ⟨input, member, rfl, ?_⟩
    have drops : dropRule document (config.withExclusions after) name =
        fun f => f.name == lost || dropRule document config name f :=
      funext (dropRule_counted h reached)
    rw [dropped_declare, drops]
    rfl

theorem declare_unreached
    (h : Exclusions.Gains category key lost config.inputs.excludedFields after) {input : InputType}
    {name : String} (unreached : ¬ Reaches document category key (declare document config input name)) :
    declare document (config.withExclusions after) input name =
      declare document config input name := by
  have rule : dropRule document (config.withExclusions after) name =
      dropRule document config name := by
    funext f
    rw [Bool.eq_iff_iff, dropRule_excluded h]
    exact or_iff_left fun counted => unreached counted.1
  exact declare_congr rfl rule rfl input

/-- One more excluded name takes the fields of that name out of the declarations that the list of its
key counts for, and does nothing else. -/
theorem select_losesField (document : Document) (config : Config) {category : InputCategory}
    {key lost : String} {after : Exclusions}
    (gains : Exclusions.Gains category key lost config.inputs.excludedFields after) :
    List.Forall₂ (fun wide narrow =>
        (Reaches document category key wide → LosesField document config lost wide narrow) ∧
          (¬ Reaches document category key wide → narrow = wide))
      (select document config) (select document (config.withExclusions after)) := by
  rw [select, select, List.forall₂_map_left_iff, List.forall₂_map_right_iff, List.forall₂_same]
  intro c hc
  exact ⟨losesField_declare gains (mem_inputs_of_mem_chosen hc), declare_unreached gains⟩

/-- Two models with inputs, all of which take a role. -/
def roleDocument : Document where
  models := [{ name := "User", fields := [] }, { name := "UserProfile", fields := [] }]
  inputTypes := { client :=
    ["UserCreateInput", "UserProfileCreateInput", "UserUpdateInput"].map fun name =>
      { name, fields := ["id", "role", "email"].map fun field =>
        { name := field, accepts := [{ name := "String", location := .scalar }] } } }

def idConfig : Config where
  inputs := { excludedFields := { create := [("User", ["id"])], update := [("$all", ["id"])] } }

def roleExclusions : Exclusions where
  create := [("User", ["role", "id"])]
  update := [("$all", ["id"])]

theorem select_losesField_role :
    Exclusions.Gains .create "User" "role" idConfig.inputs.excludedFields roleExclusions ∧
    List.Forall₂ (fun wide narrow =>
        (Reaches roleDocument .create "User" wide →
          LosesField roleDocument idConfig "role" wide narrow) ∧
        (¬ Reaches roleDocument .create "User" wide → narrow = wide))
      (select roleDocument idConfig)
      (select roleDocument (idConfig.withExclusions roleExclusions)) ∧
    (select roleDocument (idConfig.withExclusions roleExclusions)).map
        (fun d => (d.name, d.fields.map (·.name), d.dropped)) =
      [("UserCreateInput", ["email"], ["id", "role"]),
        ("UserProfileCreateInput", ["id", "role", "email"], []),
        ("UserUpdateInput", ["role", "email"], ["id"])] := by
  have gains : Exclusions.Gains .create "User" "role" idConfig.inputs.excludedFields
      roleExclusions := by
    refine ⟨?_, ?_, [], ["id"], by decide, by decide⟩
    · intro c other
      cases c with
      | create => exact absurd rfl other
      | update => rfl
      | where_ => rfl
      | orderBy => rfl
    · intro k other
      have absent : (k == "User") = false := beq_eq_false_iff_ne.mpr other
      simp [roleExclusions, idConfig, Exclusions.table, List.lookup_cons, absent]
  exact ⟨gains, select_losesField roleDocument idConfig gains, by decide +kernel⟩

end Inputs
end GraphqlCrud
