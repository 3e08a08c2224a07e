import GraphqlCrud.Compilation.Phase
import GraphqlCrud.Proofs.Plan.Resolvers
/-!
What the analysis of a run plans, and what it says about the resolvers that the plan does not have.
-/
namespace GraphqlCrud

open Schema

namespace Plan

/-- The plan takes all that the filters keep of a document, and nothing else. -/
structure IsExact (document : Document) (config : CrudConfig) (plan : Plan) : Prop where
  models : plan.models.map (·.model) = document.models.map (·.name)
  queries : ∀ m ∈ plan.models, m.queries =
    [.findFirst, .findMany, .findUnique, .count].filter fun o =>
      config.keepsName (o.resolverName m.model)
  mutations : ∀ m ∈ plan.models, m.mutations =
    [.createOne, .createMany, .updateOne, .updateMany, .upsertOne, .deleteOne, .deleteMany].filter
      fun o => config.keepsName (o.resolverName m.model)
  distinct : ∀ m ∈ plan.models, m.operations.Nodup
  resolvers : plan.resolvers = plan.models.flatMap fun m =>
    m.operations.map fun o =>
      { name := o.resolverName m.model, model := m.model, rootType := o.rootType, operation := o }
  count : plan.resolverCount = (plan.models.map (·.operations.length)).sum
  bounded : plan.resolverCount ≤ 11 * document.models.length
  /-- Nothing is cut off when the resolvers are taken away from all pairs. -/
  whole : Phase.droppedCount document plan + plan.resolverCount =
    document.models.length * Operation.all.length
  dropped : Phase.droppedCount document plan = (rejected document config).length

variable (document : Document) (config : CrudConfig)

theorem droppedCount_build :
    Phase.droppedCount document (build document config) = (rejected document config).length := by
  have every := resolverCount_add_rejected document config
  rw [Phase.droppedCount]
  omega

theorem build_isExact : IsExact document config (build document config) := by
  have kept : ∀ m ∈ (build document config).models, m = surviving config m.model := by
    intro m hm
    rw [models_build] at hm
    obtain ⟨model, -, rfl⟩ := List.mem_map.mp hm
    rfl
  have every := resolverCount_add_rejected document config
  have dropped := droppedCount_build document config
  have operations : Operation.all.length = 11 := by decide
  constructor
  case models => rw [models_build, List.map_map]; rfl
  case queries =>
    intro m hm
    exact congrArg ModelOperations.queries (kept m hm)
  case mutations =>
    intro m hm
    exact congrArg ModelOperations.mutations (kept m hm)
  case distinct =>
    intro m hm
    rw [kept m hm]
    exact operations_surviving_nodup config m.model
  case resolvers => exact resolvers_build document config
  case count => exact resolverCount_build document config
  case bounded =>
    rw [operations] at every
    omega
  case whole => omega
  case dropped => exact dropped

end Plan

namespace Phase

/-- The number of resolvers that are missing, and the models that have none. -/
def analysisMessages (missing : Nat) (idle : List String) : List String :=
  (if missing = 0 then []
    else [toString missing ++ " resolver(s) filtered out by include/exclude rules"]) ++
    idle.map fun model => "model '" ++ model ++ "' has no resolvers after filtering"

theorem map_message_planFindings (document : Document) (plan : Plan) :
    (planFindings document plan).map (·.message) =
      analysisMessages (droppedCount document plan)
        ((plan.models.filter (·.isEmpty)).map (·.model)) := by
  rw [planFindings, analysisMessages, List.map_append, List.map_map, List.map_map]
  congr 1
  by_cases none : droppedCount document plan = 0
  · simp [none]
  · have some_dropped : droppedCount document plan > 0 := Nat.pos_of_ne_zero none
    simp only [if_pos some_dropped, if_neg none]
    rfl

/-- The analysis plans exactly what the filters keep, and its first note counts the pairs of a model
and an operation that they reject. -/
theorem analyze_isExact (c : Compilation) :
    Plan.IsExact c.document c.config.crud (Plan.build c.document c.config.crud) ∧
      (analyze.run c).1.plan = some (Plan.build c.document c.config.crud) ∧
      (analyze.run c).1.findings.map (·.message) =
        c.findings.map (·.message) ++
          analysisMessages (Plan.rejected c.document c.config.crud).length
            (((Plan.build c.document c.config.crud).models.filter (·.isEmpty)).map (·.model)) := by
  refine ⟨Plan.build_isExact c.document c.config.crud, rfl, ?_⟩
  have findings : (analyze.run c).1.findings =
      c.findings ++ planFindings c.document (Plan.build c.document c.config.crud) := rfl
  rw [findings, List.map_append, map_message_planFindings, Plan.droppedCount_build]

end Phase
end GraphqlCrud
