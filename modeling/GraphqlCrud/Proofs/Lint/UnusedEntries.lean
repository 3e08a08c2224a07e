import GraphqlCrud.Lint.UnusedFilter
import GraphqlCrud.Proofs.Plan.Filters
/-!
Entries of the exact filters that no resolver has as its name. They are exactly the ones that are
reported, and a plan is the same without them: but for the last name to include, which keeps all
other filters from being asked even when it names nothing.
-/
namespace GraphqlCrud

open Schema

namespace CrudConfig

variable {c c' : CrudConfig} {name : String}

/-- Of the exact filters a name sees whether it is listed, and whether there is anything to include
by. -/
theorem keepsName_congr (none : c.includeExact = [] ↔ c'.includeExact = [])
    (included : c.includeExact.contains name = c'.includeExact.contains name)
    (excluded : c.excludeExact.contains name = c'.excludeExact.contains name)
    (includeContaining : c.includeContaining = c'.includeContaining)
    (excludeContaining : c.excludeContaining = c'.excludeContaining) :
    c.keepsName name = c'.keepsName name := by
  simp only [keepsName, verdict, none, included, excluded, includeContaining, excludeContaining, ne_eq]

end CrudConfig

namespace Plan

/-- A plan depends on its options only through the names of resolvers that they keep. -/
theorem build_congr_of_candidates {document : Document} {c c' : CrudConfig}
    (same : ∀ m ∈ document.models, ∀ o : Operation,
      c.keepsName (o.resolverName m.name) = c'.keepsName (o.resolverName m.name)) :
    build document c = build document c' := by
  have models : (build document c).models = (build document c').models := by
    rw [models_build, models_build]
    refine List.map_congr_left fun m hm => ?_
    have kept (t : RootType) : survivors c m.name t = survivors c' m.name t :=
      List.filter_congr fun o _ => same m hm o
    rw [surviving, surviving, kept, kept]
  have resolvers : (build document c).resolvers = (build document c').resolvers := by
    rw [resolvers_build, resolvers_build, models]
  calc build document c = ⟨(build document c).models, (build document c).resolvers⟩ := rfl
    _ = build document c' := by rw [models, resolvers]

end Plan

namespace Lint

/-- The text is the name of a resolver that could be generated. -/
def NamesResolver (document : Document) (entry : String) : Prop :=
  ∃ m ∈ document.models, ∃ o : Operation, o.resolverName m.name = entry

/-- The lint has a finding about the entry of the filter with that key. -/
def IsReported (document : Document) (config : Config) (key entry : String) : Prop :=
  unusedFinding key entry ∈ unusedFilter.check document config

instance (document : Document) (config : Config) (key entry : String) :
    Decidable (IsReported document config key entry) :=
  inferInstanceAs (Decidable (_ ∈ unusedFilter.check document config))

/-- What is left of a list when some of its reported entries are deleted, wherever they stand. -/
inductive Leaves (reported : String → Prop) : List String → List String → Prop
  | nil : Leaves reported [] []
  | keep {entry : String} {entries left : List String} (rest : Leaves reported entries left) :
    Leaves reported (entry :: entries) (entry :: left)
  | delete {entry : String} {entries left : List String} (unused : reported entry)
    (rest : Leaves reported entries left) : Leaves reported (entry :: entries) left

variable {document : Document} {config : Config} {key entry : String}

theorem unusedFinding_inj {key' entry' : String}
    (same : unusedFinding key entry = unusedFinding key' entry') : key = key' ∧ entry = entry' := by
  have place := Option.some.inj (congrArg Finding.location same)
  obtain rfl := (String.append_right_inj "crud.").mp place
  have message : "'" ++ entry ++ "' in " ++ key ++ " matches no resolver" =
      "'" ++ entry' ++ "' in " ++ key ++ " matches no resolver" := congrArg Finding.message same
  simp only [String.append_left_inj, String.append_right_inj] at message
  exact ⟨rfl, message⟩

theorem mem_possibleNames : entry ∈ possibleNames document ↔ NamesResolver document entry := by
  simp [possibleNames, NamesResolver]

theorem isReported_iff : IsReported document config key entry ↔
    ∃ entries, (key, entries) ∈ exactFilters config.crud ∧ entry ∈ entries ∧
      ¬ NamesResolver document entry := by
  have unused (entries : List String) : entry ∈ unusedEntries document entries ↔
      entry ∈ entries ∧ ¬ NamesResolver document entry := by
    simp [unusedEntries, mem_possibleNames]
  constructor
  · intro reported
    obtain ⟨⟨key', entries⟩, filter, found⟩ := List.mem_flatMap.mp reported
    obtain ⟨entry', listed, same⟩ := List.mem_map.mp found
    obtain ⟨rfl, rfl⟩ := unusedFinding_inj same
    exact ⟨entries, filter, (unused entries).mp listed⟩
  · rintro ⟨entries, filter, listed⟩
    exact List.mem_flatMap.mpr
      ⟨(key, entries), filter, List.mem_map_of_mem ((unused entries).mpr listed)⟩

/-- Deletion takes no name from a list but reported ones. -/
theorem Leaves.contains_eq {reported : String → Prop} {entries left : List String}
    (h : Leaves reported entries left) {name : String} (used : ¬ reported name) :
    left.contains name = entries.contains name := by
  induction h with
  | nil => rfl
  | keep rest ih => rw [List.contains_cons, List.contains_cons, ih]
  | @delete entry entries left unused rest ih =>
    have other : (name == entry) = false := by
      refine beq_eq_false_iff_ne.mpr ?_
      rintro rfl
      exact used unused
    rw [List.contains_cons, other, Bool.false_or, ih]

theorem Leaves.ne_nil {reported : String → Prop} {entries left : List String}
    (h : Leaves reported entries left) (filled : left ≠ []) : entries ≠ [] := by
  cases h with
  | nil => exact filled
  | keep rest => exact List.cons_ne_nil _ _
  | delete unused rest => exact List.cons_ne_nil _ _

theorem not_isReported_resolverName {m : Model} (hm : m ∈ document.models) (o : Operation) :
    ¬ IsReported document config key (o.resolverName m.name) := by
  intro reported
  obtain ⟨-, -, -, unnamed⟩ := isReported_iff.mp reported
  exact unnamed ⟨m, hm, o, rfl⟩

theorem isReported_include : IsReported document config "includeResolversExact" entry ↔
    entry ∈ config.crud.includeExact ∧ ¬ NamesResolver document entry := by
  rw [isReported_iff]
  simp [exactFilters]

theorem isReported_exclude : IsReported document config "excludeResolversExact" entry ↔
    entry ∈ config.crud.excludeExact ∧ ¬ NamesResolver document entry := by
  rw [isReported_iff]
  simp [exactFilters]

theorem build_without_excluded {left : List String}
    (h : Leaves (IsReported document config key) config.crud.excludeExact left) :
    Plan.build document { config.crud with excludeExact := left } =
      Plan.build document config.crud := by
  refine Plan.build_congr_of_candidates fun m hm o => ?_
  exact CrudConfig.keepsName_congr .rfl rfl (h.contains_eq (not_isReported_resolverName hm o)) rfl
    rfl

theorem build_without_included {left : List String}
    (h : Leaves (IsReported document config key) config.crud.includeExact left)
    (remaining : left ≠ []) :
    Plan.build document { config.crud with includeExact := left } =
      Plan.build document config.crud := by
  have some := h.ne_nil remaining
  refine Plan.build_congr_of_candidates fun m hm o => ?_
  exact CrudConfig.keepsName_congr (iff_of_false remaining some)
    (h.contains_eq (not_isReported_resolverName hm o)) rfl rfl rfl

/-- Names to include of which none is used leave nothing, where no names to include leave the other
filters to decide. -/
theorem resolvers_build_of_unused (some : config.crud.includeExact ≠ [])
    (h : Leaves (IsReported document config key) config.crud.includeExact []) :
    (Plan.build document config.crud).resolvers = [] := by
  rw [Plan.resolvers_eq_candidates, List.map_eq_nil_iff, List.filter_eq_nil_iff]
  rintro ⟨model, o⟩ candidate
  obtain ⟨m, hm, listed⟩ := List.mem_flatMap.mp candidate
  obtain ⟨o, -, same⟩ := List.mem_map.mp listed
  obtain ⟨rfl, rfl⟩ := Prod.mk.inj same
  have unlisted := h.contains_eq (not_isReported_resolverName hm o)
  rw [Plan.keepsPair, CrudConfig.keepsName_of_includeExact some, ← unlisted]
  exact Bool.false_ne_true

/-- Reported are the entries that no resolver has as its name, and the plan does not change when some
of them are deleted, as long as names to include stay so. -/
theorem unusedFilter_isExact (document : Document) (config : Config) :
    (∀ entry, IsReported document config "includeResolversExact" entry ↔
      entry ∈ config.crud.includeExact ∧ ¬ NamesResolver document entry) ∧
    (∀ entry, IsReported document config "excludeResolversExact" entry ↔
      entry ∈ config.crud.excludeExact ∧ ¬ NamesResolver document entry) ∧
    (∀ left, Leaves (IsReported document config "excludeResolversExact")
        config.crud.excludeExact left →
      Plan.build document { config.crud with excludeExact := left } =
        Plan.build document config.crud) ∧
    (∀ left, Leaves (IsReported document config "includeResolversExact")
        config.crud.includeExact left → left ≠ [] →
      Plan.build document { config.crud with includeExact := left } =
        Plan.build document config.crud) :=
  ⟨fun _ => isReported_include, fun _ => isReported_exclude, fun _ => build_without_excluded,
    fun _ => build_without_included⟩

def users : Document := { models := [{ name := "User", fields := [] }] }

/-- Two mistaken names to include, one of them twice, around one that is used. -/
def includingTypos : Config :=
  { crud := { includeExact := ["findManyUsers", "countUser", "user", "findManyUsers"] } }

def excludingTypo : Config :=
  { crud := { excludeExact := ["deleteOneUsers", "deleteOneUser"] } }

theorem unusedFilter_isExact_users :
    (Leaves (IsReported users excludingTypo "excludeResolversExact")
        excludingTypo.crud.excludeExact ["deleteOneUser"] ∧
      Plan.build users { excludingTypo.crud with excludeExact := ["deleteOneUser"] } =
        Plan.build users excludingTypo.crud) ∧
    Leaves (IsReported users includingTypos "includeResolversExact")
        includingTypos.crud.includeExact ["countUser", "findManyUsers"] ∧
      ["countUser", "findManyUsers"] ≠ [] ∧
      Plan.build users { includingTypos.crud with includeExact := ["countUser", "findManyUsers"] } =
        Plan.build users includingTypos.crud := by
  have excluded : Leaves (IsReported users excludingTypo "excludeResolversExact")
      excludingTypo.crud.excludeExact ["deleteOneUser"] :=
    .delete (by decide +kernel) (.keep .nil)
  have included : Leaves (IsReported users includingTypos "includeResolversExact")
      includingTypos.crud.includeExact ["countUser", "findManyUsers"] :=
    .delete (by decide +kernel) (.keep (.delete (by decide +kernel) (.keep .nil)))
  exact ⟨⟨excluded, (unusedFilter_isExact users excludingTypo).2.2.1 _ excluded⟩,
    included, by decide, (unusedFilter_isExact users includingTypos).2.2.2 _ included (by decide)⟩

end Lint
end GraphqlCrud
