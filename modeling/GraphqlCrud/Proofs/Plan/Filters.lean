import Mathlib.Data.List.Forall2
import GraphqlCrud.Proofs.Plan.Resolvers
/-!
How a plan follows its filters. Names to include decide alone; a longer list of names to include
never takes a resolver away, and a longer list of names to exclude never brings one in.
-/
namespace GraphqlCrud

open Schema

namespace CrudConfig

/-- The same names to include decide under both options. -/
inductive IncludesSame (c c' : CrudConfig) : Prop where
  | exact (some : c.includeExact ≠ []) (same : c'.includeExact = c.includeExact)
  | containing (none : c.includeExact = []) (none' : c'.includeExact = [])
    (some : c.includeContaining ≠ []) (same : c'.includeContaining = c.includeContaining)

/-- There are names to include, and the second options add others. -/
inductive IncludesMore (c c' : CrudConfig) : Prop where
  | exact (some : c.includeExact ≠ []) (more : c.includeExact ⊆ c'.includeExact)
  | containing (none : c.includeExact = []) (none' : c'.includeExact = [])
    (some : c.includeContaining ≠ []) (more : c.includeContaining ⊆ c'.includeContaining)

/-- The second options differ from the first by further names to exclude. -/
structure ExcludesMore (c c' : CrudConfig) : Prop where
  includeExact : c'.includeExact = c.includeExact
  includeContaining : c'.includeContaining = c.includeContaining
  excludeExact : c.excludeExact ⊆ c'.excludeExact
  excludeContaining : c.excludeContaining ⊆ c'.excludeContaining

variable {c c' : CrudConfig} {name : String}

theorem keepsName_of_includeExact (some : c.includeExact ≠ []) :
    c.keepsName name = c.includeExact.contains name := by
  rw [keepsName, verdict, if_pos some]
  cases c.includeExact.contains name <;> rfl

theorem keepsName_of_includeContaining (none : c.includeExact = [])
    (some : c.includeContaining ≠ []) :
    c.keepsName name = containsAny c.includeContaining name := by
  rw [keepsName, verdict, if_neg (not_not_intro none), if_pos some]
  cases containsAny c.includeContaining name <;> rfl

theorem keepsName_of_exclude (none : c.includeExact = []) (none' : c.includeContaining = []) :
    c.keepsName name =
      !(c.excludeExact.contains name || containsAny c.excludeContaining name) := by
  rw [keepsName, verdict, if_neg (not_not_intro none), if_neg (not_not_intro none')]
  cases c.excludeExact.contains name <;> cases containsAny c.excludeContaining name <;> rfl

theorem contains_mono {names more : List String} (sub : names ⊆ more)
    (h : names.contains name = true) : more.contains name = true :=
  List.contains_iff_mem.mpr (sub (List.contains_iff_mem.mp h))

theorem containsAny_mono {fragments more : List String} (sub : fragments ⊆ more)
    (h : containsAny fragments name = true) : containsAny more name = true := by
  obtain ⟨fragment, member, occurs⟩ := List.any_eq_true.mp h
  exact List.any_eq_true.mpr ⟨fragment, sub member, occurs⟩

theorem IncludesSame.keepsName_eq (h : IncludesSame c c') (name : String) :
    c'.keepsName name = c.keepsName name := by
  cases h with
  | exact some same =>
    have some' : c'.includeExact ≠ [] := same ▸ some
    rw [keepsName_of_includeExact some, keepsName_of_includeExact some', same]
  | containing none none' some same =>
    have some' : c'.includeContaining ≠ [] := same ▸ some
    rw [keepsName_of_includeContaining none some, keepsName_of_includeContaining none' some', same]

theorem IncludesMore.keepsName (h : IncludesMore c c') (kept : c.keepsName name = true) :
    c'.keepsName name = true := by
  cases h with
  | exact some more =>
    have some' : c'.includeExact ≠ [] := fun none => some (List.subset_nil.mp (none ▸ more))
    rw [keepsName_of_includeExact some] at kept
    rw [keepsName_of_includeExact some']
    exact contains_mono more kept
  | containing none none' some more =>
    have some' : c'.includeContaining ≠ [] := fun none => some (List.subset_nil.mp (none ▸ more))
    rw [keepsName_of_includeContaining none some] at kept
    rw [keepsName_of_includeContaining none' some']
    exact containsAny_mono more kept

theorem ExcludesMore.keepsName (h : ExcludesMore c c') (kept : c'.keepsName name = true) :
    c.keepsName name = true := by
  -- Names to exclude are looked at only where there is nothing to include by.
  by_cases exact : c.includeExact = []
  · by_cases containing : c.includeContaining = []
    · have exact' : c'.includeExact = [] := h.includeExact.trans exact
      have containing' : c'.includeContaining = [] := h.includeContaining.trans containing
      rw [keepsName_of_exclude exact' containing', Bool.not_eq_true', Bool.or_eq_false_iff] at kept
      rw [keepsName_of_exclude exact containing, Bool.not_eq_true', Bool.or_eq_false_iff]
      constructor
      · refine Bool.eq_false_iff.mpr fun listed => ?_
        rw [contains_mono h.excludeExact listed] at kept
        cases kept.1
      · refine Bool.eq_false_iff.mpr fun listed => ?_
        rw [containsAny_mono h.excludeContaining listed] at kept
        cases kept.2
    · have same := IncludesSame.containing exact (h.includeExact.trans exact) containing
        h.includeContaining
      rwa [← same.keepsName_eq name]
  · have same := IncludesSame.exact exact h.includeExact
    rwa [← same.keepsName_eq name]

end CrudConfig

namespace Plan

open CrudConfig

/-- All that the first plan holds is in the second, in the same order. -/
structure Within (plan larger : Plan) : Prop where
  models : List.Forall₂ (fun m m' => m.model = m'.model ∧ m.queries.Sublist m'.queries ∧
    m.mutations.Sublist m'.mutations) plan.models larger.models
  resolvers : plan.resolvers.Sublist larger.resolvers

variable {document : Document} {c c' : CrudConfig}

/-- A plan depends on its options only through the names that they keep. -/
theorem build_congr (same : ∀ name, c.keepsName name = c'.keepsName name) :
    build document c = build document c' := by
  have step : considerOperation c = considerOperation c' := by
    funext model soFar o
    simp only [considerOperation, same]
  have grow : addModel c = addModel c' := by
    funext plan m
    simp only [addModel, step]
  rw [build, build, grow]

theorem survivors_sublist (more : ∀ name, c.keepsName name = true → c'.keepsName name = true)
    (model : String) (t : RootType) :
    (survivors c model t).Sublist (survivors c' model t) :=
  List.monotone_filter_right (Operation.ofType t) fun o => more (o.resolverName model)

theorem build_within (more : ∀ name, c.keepsName name = true → c'.keepsName name = true) :
    (build document c).Within (build document c') where
  models := by
    rw [models_build, models_build, List.forall₂_map_left_iff, List.forall₂_map_right_iff,
      List.forall₂_same]
    intro m _
    exact ⟨rfl, survivors_sublist more m.name .query, survivors_sublist more m.name .mutation⟩
  resolvers := by
    rw [resolvers_eq_candidates, resolvers_eq_candidates]
    refine List.Sublist.map _ (List.monotone_filter_right (candidates document) ?_)
    intro pair
    exact more (pair.2.resolverName pair.1)

/-- Names to include leave no say to all other lists, and plans grow with the names to include and
shrink with the names to exclude. -/
theorem build_follows_filters (document : Document) (c c' : CrudConfig) :
    (IncludesSame c c' → build document c' = build document c) ∧
      (ExcludesMore c c' → (build document c').Within (build document c)) ∧
      (IncludesMore c c' → (build document c).Within (build document c')) := by
  refine ⟨?_, ?_, ?_⟩
  · intro h
    exact build_congr h.keepsName_eq
  · intro h
    exact build_within fun name => h.keepsName
  · intro h
    exact build_within fun name => h.keepsName

def usersAndPosts : Document :=
  { models := ["User", "Post"].map fun name => { name, fields := [] } }

def countersOnly : CrudConfig := { includeContaining := ["count"] }

/-- The exclusions name every resolver, and the first of them one that is included. -/
def countersForbidden : CrudConfig :=
  { countersOnly with excludeExact := ["countUser"], excludeContaining := [""] }

def countersAndPosts : CrudConfig := { includeContaining := ["Post", "count"] }

def withoutCounters : CrudConfig := { excludeContaining := ["count"] }

theorem counters_within :
    (IncludesSame countersOnly countersForbidden ∧
        build usersAndPosts countersForbidden = build usersAndPosts countersOnly) ∧
      (ExcludesMore {} withoutCounters ∧
        (build usersAndPosts withoutCounters).Within (build usersAndPosts {})) ∧
      (IncludesMore countersOnly countersAndPosts ∧
        (build usersAndPosts countersOnly).Within (build usersAndPosts countersAndPosts)) := by
  have same : IncludesSame countersOnly countersForbidden :=
    .containing rfl rfl (List.cons_ne_nil _ _) rfl
  have fewer : ExcludesMore {} withoutCounters :=
    ⟨rfl, rfl, List.nil_subset _, List.nil_subset _⟩
  have more : IncludesMore countersOnly countersAndPosts :=
    .containing rfl rfl (List.cons_ne_nil _ _) (List.subset_cons_self _ _)
  exact ⟨⟨same, (build_follows_filters usersAndPosts _ _).1 same⟩,
    ⟨fewer, (build_follows_filters usersAndPosts _ _).2.1 fewer⟩,
    ⟨more, (build_follows_filters usersAndPosts _ _).2.2 more⟩⟩

end Plan
end GraphqlCrud
