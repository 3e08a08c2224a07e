import Mathlib.Algebra.Ring.Nat
import Mathlib.Data.List.Basic
import GraphqlCrud.Proofs.Plan.Survival
/-!
The resolvers of a plan in one list. Every pair of a model and an operation is considered once, and
the list and the models of the plan keep the same pairs in the same order.
-/
namespace GraphqlCrud

open Schema

def Resolver.of (model : String) (o : Operation) : Resolver :=
  { name := o.resolverName model, model, rootType := o.rootType, operation := o }

namespace Plan

/-- All pairs of a model's name and an operation, in the order in which they are considered. -/
def candidates (document : Document) : List (String × Operation) :=
  document.models.flatMap fun m => Operation.all.map fun o => (m.name, o)

def keepsPair (config : CrudConfig) (pair : String × Operation) : Bool :=
  config.keepsName (pair.2.resolverName pair.1)

/-- The pairs that the filters keep out of the plan. -/
def rejected (document : Document) (config : CrudConfig) : List (String × Operation) :=
  (candidates document).filter fun pair => !keepsPair config pair

variable {document : Document} {config : CrudConfig} {model : String}

/-- The queries come before the mutations, so that a model's two lists one after the other are in
the order of all operations. -/
theorem operations_surviving :
    (surviving config model).operations =
      Operation.all.filter fun o => config.keepsName (o.resolverName model) := by
  have parted : Operation.all = Operation.ofType .query ++ Operation.ofType .mutation := by decide
  rw [parted, List.filter_append]
  rfl

theorem considerOperation_snd (soFar : ModelOperations × List Resolver) (o : Operation) :
    (considerOperation config model soFar o).2 =
      soFar.2 ++ if config.keepsName (o.resolverName model) then [Resolver.of model o] else [] := by
  unfold considerOperation
  cases hk : config.keepsName (o.resolverName model) <;> simp [hk, Resolver.of]

theorem foldl_considerOperation_snd (config : CrudConfig) (model : String) (os : List Operation)
    (soFar : ModelOperations × List Resolver) :
    (os.foldl (considerOperation config model) soFar).2 =
      soFar.2 ++ (os.filter fun o => config.keepsName (o.resolverName model)).map
        (Resolver.of model) := by
  induction os generalizing soFar with
  | nil => simp
  | cons o os ih =>
    rw [List.foldl_cons, ih, considerOperation_snd, List.filter_cons]
    cases config.keepsName (o.resolverName model) <;> simp

theorem resolvers_addModel (plan : Plan) (m : Model) :
    (addModel config plan m).resolvers =
      plan.resolvers ++ (surviving config m.name).operations.map (Resolver.of m.name) := by
  have kept := foldl_considerOperation_snd config m.name Operation.all
    ({ model := m.name }, plan.resolvers)
  rw [operations_surviving]
  exact kept

theorem resolvers_foldl_addModel (config : CrudConfig) (models : List Model) (plan : Plan) :
    (models.foldl (addModel config) plan).resolvers =
      plan.resolvers ++ models.flatMap fun m =>
        (surviving config m.name).operations.map (Resolver.of m.name) := by
  induction models generalizing plan with
  | nil => simp
  | cons m models ih =>
    rw [List.foldl_cons, ih, resolvers_addModel, List.flatMap_cons, List.append_assoc]

/-- The list of resolvers is what the models of the plan keep, one model after the other. -/
theorem resolvers_build (document : Document) (config : CrudConfig) :
    (build document config).resolvers =
      (build document config).models.flatMap fun m => m.operations.map (Resolver.of m.model) := by
  have listed := resolvers_foldl_addModel config document.models {}
  rw [models_build, List.flatMap_map]
  exact listed

theorem resolvers_eq_candidates (document : Document) (config : CrudConfig) :
    (build document config).resolvers =
      ((candidates document).filter (keepsPair config)).map fun pair =>
        Resolver.of pair.1 pair.2 := by
  rw [resolvers_build, models_build, List.flatMap_map, candidates, List.filter_flatMap,
    List.map_flatMap]
  apply List.flatMap_congr
  intro m _
  rw [operations_surviving, List.filter_map, List.map_map]
  rfl

theorem length_candidates (document : Document) :
    (candidates document).length = document.models.length * Operation.all.length := by
  rw [candidates]
  induction document.models with
  | nil => rfl
  | cons m models ih =>
    rw [List.flatMap_cons, List.length_append, List.length_map, ih, List.length_cons,
      Nat.succ_mul, Nat.add_comm]

/-- Every pair is either a resolver of the plan or rejected. -/
theorem resolverCount_add_rejected (document : Document) (config : CrudConfig) :
    (build document config).resolverCount + (rejected document config).length =
      document.models.length * Operation.all.length := by
  rw [resolverCount, resolvers_eq_candidates, List.length_map, rejected,
    ← List.countP_eq_length_filter, ← List.countP_eq_length_filter, ← length_candidates]
  have every := List.length_eq_countP_add_countP (keepsPair config) (l := candidates document)
  simpa only [Bool.not_eq_true, Bool.decide_eq_false] using every.symm

theorem resolverCount_build (document : Document) (config : CrudConfig) :
    (build document config).resolverCount =
      ((build document config).models.map (·.operations.length)).sum := by
  rw [resolverCount, resolvers_build, List.length_flatMap]
  simp only [List.length_map]

end Plan
end GraphqlCrud
