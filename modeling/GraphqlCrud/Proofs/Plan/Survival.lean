import GraphqlCrud.Plan
/-!
What a plan holds: for every model in turn the operations whose resolver names the filter keeps.
-/
namespace GraphqlCrud

open Schema

@[simp] theorem Operation.mem_all (o : Operation) : o ∈ Operation.all := by cases o <;> decide

@[simp] theorem RootType.mem_all (t : RootType) : t ∈ RootType.all := by cases t <;> decide

namespace Plan

def survivors (config : CrudConfig) (model : String) (t : RootType) : List Operation :=
  (Operation.ofType t).filter fun o => config.keepsName (o.resolverName model)

def surviving (config : CrudConfig) (model : String) : ModelOperations :=
  { model, queries := survivors config model .query, mutations := survivors config model .mutation }

@[simp] theorem ofType_surviving (config : CrudConfig) (model : String) (t : RootType) :
    (surviving config model).ofType t = survivors config model t := by cases t <;> rfl

theorem mem_survivors {config : CrudConfig} {model : String} {t : RootType} {o : Operation} :
    o ∈ survivors config model t ↔
      o.rootType = t ∧ config.keepsName (o.resolverName model) = true := by
  simp [survivors, Operation.ofType, and_comm]

theorem survivors_nodup (config : CrudConfig) (model : String) (t : RootType) :
    (survivors config model t).Nodup := by
  have distinct : Operation.all.Nodup := by decide
  exact (distinct.filter _).filter _

theorem mem_operations_surviving {config : CrudConfig} {model : String} {o : Operation} :
    o ∈ (surviving config model).operations ↔
      config.keepsName (o.resolverName model) = true := by
  have query : o ∈ (surviving config model).queries ↔ _ := mem_survivors
  have mutation : o ∈ (surviving config model).mutations ↔ _ := mem_survivors
  rw [ModelOperations.operations, List.mem_append, query, mutation, ← or_and_right]
  cases o.rootType <;> simp

theorem operations_surviving_nodup (config : CrudConfig) (model : String) :
    (surviving config model).operations.Nodup := by
  refine List.nodup_append.mpr
    ⟨survivors_nodup config model .query, survivors_nodup config model .mutation, ?_⟩
  rintro o query p mutation rfl
  have impossible := (mem_survivors.mp query).1.symm.trans (mem_survivors.mp mutation).1
  cases impossible

/-- What a model keeps of some operations, by their root type. -/
def keptAmong (config : CrudConfig) (model : String) (os : List Operation) (t : RootType) :
    List Operation :=
  (os.filter (·.rootType == t)).filter fun o => config.keepsName (o.resolverName model)

theorem considerOperation_fst (config : CrudConfig) (model : String)
    (soFar : ModelOperations × List Resolver) (o : Operation) :
    (considerOperation config model soFar o).1 =
      { soFar.1 with
        queries := soFar.1.queries ++ keptAmong config model [o] .query
        mutations := soFar.1.mutations ++ keptAmong config model [o] .mutation } := by
  unfold considerOperation keptAmong
  cases hk : config.keepsName (o.resolverName model) <;> cases ht : o.rootType <;>
    simp [hk, ht]

theorem foldl_considerOperation_fst (config : CrudConfig) (model : String) (os : List Operation)
    (soFar : ModelOperations × List Resolver) :
    (os.foldl (considerOperation config model) soFar).1 =
      { soFar.1 with
        queries := soFar.1.queries ++ keptAmong config model os .query
        mutations := soFar.1.mutations ++ keptAmong config model os .mutation } := by
  induction os generalizing soFar with
  | nil => simp [keptAmong]
  | cons o os ih =>
    have joined (t : RootType) : keptAmong config model (o :: os) t =
        keptAmong config model [o] t ++ keptAmong config model os t := by
      rw [← List.singleton_append, keptAmong, List.filter_append, List.filter_append]
      rfl
    rw [List.foldl_cons, ih, considerOperation_fst, joined, joined]
    simp only [List.append_assoc]

theorem models_addModel (config : CrudConfig) (plan : Plan) (m : Model) :
    (addModel config plan m).models = plan.models ++ [surviving config m.name] := by
  have kept := foldl_considerOperation_fst config m.name Operation.all
    ({ model := m.name }, plan.resolvers)
  simp only [List.nil_append] at kept
  rw [addModel]
  simp only [kept]
  rfl

theorem models_foldl_addModel (config : CrudConfig) (models : List Model) (plan : Plan) :
    (models.foldl (addModel config) plan).models =
      plan.models ++ models.map fun m => surviving config m.name := by
  induction models generalizing plan with
  | nil => simp
  | cons m models ih =>
    rw [List.foldl_cons, ih, models_addModel]
    simp

/-- A plan lists every model with the operations that survive, in the order of the document. -/
theorem models_build (document : Document) (config : CrudConfig) :
    (build document config).models = document.models.map fun m => surviving config m.name := by
  rw [build, models_foldl_addModel]
  rfl

end Plan
end GraphqlCrud
