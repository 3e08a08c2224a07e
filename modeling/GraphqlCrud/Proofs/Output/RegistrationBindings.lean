import GraphqlCrud.Compilation.Phase
import GraphqlCrud.Lint.Standard
import GraphqlCrud.Proofs.Lint.Repetition
import GraphqlCrud.Proofs.Output.Artifacts
import GraphqlCrud.Proofs.Output.Descriptors
import GraphqlCrud.Proofs.Script.Bindings
/-!
The names that the registration file binds, and the files that its imports of models may find. The
lints ask for both, but know only some of the names.
-/
namespace GraphqlCrud

open Schema Text

namespace Output.Registration

open Script Layout

variable {document : Document} {config : Config}

/-! Imports -/

theorem bindings_modelImport {m : String} (h : IsWord m) :
    bindings (modelImport m).statement = [m] := by
  have unbroken : '\n' ∉ (modelImport m).statement.toList := by
    have line : IsLine ("import " ++ typeMark false ++ "* as " ++ m ++ " from " ++
        singleQuoted ("./" ++ m) ++ ";") :=
      ((((by decide : IsLine ("import " ++ typeMark false ++ "* as ")).append h.isLine).append
        (by decide)).append (isLine_singleQuoted _)).append (by decide)
    exact line.unbroken
  have opened : (modelImport m).statement.toList =
      "import * as ".toList ++
        (m.toList ++ ' ' :: ("from ".toList ++ (singleQuoted ("./" ++ m) ++ ";").toList)) := by
    simp only [Import.statement, modelImport, String.toList_append, List.append_assoc]
    rfl
  rw [bindings_of_unbroken unbroken, opened, lineBindings_namespace h (by decide)]

theorem bindings_builderImport (path : String) :
    bindings (Import.statement { source := path, names := ["builder"] }) = ["builder"] := by
  have unbroken : '\n' ∉ (Import.statement { source := path, names := ["builder"] }).toList := by
    have line : IsLine ("import " ++ typeMark false ++ bracedNames ["builder"] ++ " from " ++
        singleQuoted path ++ ";") :=
      ((by decide : IsLine ("import " ++ typeMark false ++ bracedNames ["builder"] ++
        " from ")).append (isLine_singleQuoted _)).append (by decide)
    exact line.unbroken
  have opened : (Import.statement { source := path, names := ["builder"] }).toList =
      "import \x7b builder \x7d from ".toList ++ (singleQuoted path ++ ";").toList := by
    simp only [Import.statement, String.toList_append, List.append_assoc]
    rfl
  rw [bindings_of_unbroken unbroken, opened]
  rfl

theorem importsText_eq (plan : Plan) (config : Config) : (file plan config).importsText =
    ended (plan.models.map (fun m => (modelImport m.model).statement) ++
      [Import.statement { source := config.global.builderPath, names := ["builder"] },
        Import.statement { source := "./objects", namespaceName := some "Objects" }]) := by
  have models : (plan.models.map fun m => ImportLine.statement (modelImport m.model)).flatMap
      ImportLine.blocks = (plan.models.map fun m => (modelImport m.model).statement).map .line := by
    rw [List.flatMap_map, List.map_map, List.map_eq_flatMap]
    rfl
  rw [SourceFile.importsText, render_eq_ended, file, List.flatMap_append, models,
    renderedLines_append, renderedLines_lines]
  rfl

theorem bindings_imports (h : ∀ m ∈ document.models, IsWord m.name) :
    bindings (file (Plan.build document config.crud) config).importsText =
      document.models.map (·.name) ++ ["builder", "Objects"] := by
  have models : ((Plan.build document config.crud).models.map fun m =>
      (modelImport m.model).statement).flatMap bindings = document.models.map (·.name) := by
    rw [Plan.models_build, List.map_map, List.flatMap_map, List.map_eq_flatMap]
    apply List.flatMap_congr
    intro m hm
    exact bindings_modelImport (h m hm)
  have objects : bindings (Import.statement
      { source := "./objects", namespaceName := some "Objects" }) = ["Objects"] := by
    decide
  rw [importsText_eq, bindings_ended, List.flatMap_append, models, List.flatMap_cons,
    bindings_builderImport, List.flatMap_singleton, objects]
  rfl

/-! Declarations -/

theorem bindings_descriptorLines {model : String} (h : IsWord model) :
    ∀ line ∈ descriptorLines config.crud model, bindings line = [] := by
  rw [← map_inward_memberLines h]
  refine List.forall_mem_cons.mpr ⟨by decide, ?_⟩
  intro line hline
  rcases List.mem_append.mp hline with hline | hline
  · obtain ⟨inner, hinner, rfl⟩ := List.mem_map.mp hline
    obtain ⟨outer, houter, rfl⟩ := List.mem_map.mp hinner
    exact bindings_inward (isLine_inward (isLine_memberLines h outer houter)).unbroken
  · obtain rfl := List.mem_singleton.mp hline
    decide

theorem bindings_descriptors (h : ∀ m ∈ document.models, IsWord m.name) :
    bindings (render
      (Declaration.constant (descriptors (Plan.build document config.crud))).blocks) =
        ["crudDescriptors"] := by
  have inner : (document.models.flatMap fun m => descriptorLines config.crud m.name).flatMap
      bindings = [] := by
    rw [List.flatMap_eq_nil_iff]
    intro line hline
    obtain ⟨m, hm, hline⟩ := List.mem_flatMap.mp hline
    exact bindings_descriptorLines (h m hm) line hline
  have empty_table : bindings (tableHead ++ "[]" ++ ";") = ["crudDescriptors"] := by
    decide
  have opening : bindings (tableHead ++ "[") = ["crudDescriptors"] := by decide
  have closing : bindings "];" = [] := by decide
  rw [render_eq_ended, renderedLines_descriptors h, bindings_ended, tableLines]
  split
  · exact empty_table
  · rw [List.flatMap_map, List.flatMap_cons, List.flatMap_append, opening, inner,
      List.flatMap_singleton, closing]
    rfl

set_option maxRecDepth 10000 in
theorem bindings_splicedCode :
    bindings (render (Declaration.code types).blocks) = [
        "Model", "ResolverType", "OperationMap", "FieldDefiner", "CrudOptions", "CrudDescriptor",
        "CrudTable"] ∧
      bindings (render (Declaration.code filters).blocks) =
        ["includeModel", "listedOperations", "includeOperation"] ∧
      bindings (render (Declaration.code registerResolvers).blocks) =
        ["generateResolversByType"] := by
  refine ⟨bindings_code rfl ?_, bindings_code rfl ?_, bindings_code rfl ?_⟩
  all_goals decide +kernel

theorem bindings_createTable :
    bindings (render (Declaration.function createTable).blocks) = ["createCrudTable"] := by
  have signature : '\n' ∉ createTable.signature.toList := by
    simp only [FunctionDef.signature, createTable, Parameter.written, List.map_cons, List.map_nil,
      String.intercalate_singleton, Option.map_some, Option.getD_some, String.toList_append,
      List.mem_append, not_or]
    and_intros <;> exact notMem_literal rfl (by decide)
  refine bindings_function (IsWord.of_isIdentifier (by decide)) rfl signature ?_
  exact List.forall_mem_singleton.mpr (notMem_literal rfl (by decide))

theorem bindings_batchOperations :
    bindings (render (Declaration.constant batchOperations).blocks) = ["batchOperations"] := by
  decide +kernel

theorem bindings_entryPoint {name : String} {body : List String} (h : IsWord name)
    (hbody : ∀ line ∈ body, '\n' ∉ line.toList) :
    bindings (render (Declaration.function (entryPoint name body)).blocks) = [name] := by
  have signature : '\n' ∉ (entryPoint name body).signature.toList := by
    have unbroken := h.isLine.unbroken
    simp [FunctionDef.signature, entryPoint, Parameter.written, exportMark, unbroken]
  exact bindings_function h rfl signature hbody

theorem bindings_entryPoints :
    entryPoints.flatMap (fun f => bindings (render (Declaration.function f).blocks)) = [
      "generateAllObjects", "generateAllQueries", "generateAllMutations", "generateAllResolvers",
      "generateAllCrud"] := by
  have made : ∀ f ∈ entryPoints, f = entryPoint f.name f.body := by
    intro f hf
    simp only [entryPoints, List.mem_cons, List.not_mem_nil, or_false] at hf
    rcases hf with rfl | rfl | rfl | rfl | rfl <;> rfl
  have word : ∀ f ∈ entryPoints, isIdentifier f.name = true := by decide
  have body : ∀ f ∈ entryPoints, ∀ line ∈ f.body, '\n' ∉ line.toList := by
    simp only [entryPoints, entryPoint, List.forall_mem_cons, List.not_mem_nil,
      IsEmpty.forall_iff, implies_true, and_true]
    and_intros <;> exact notMem_literal rfl (by decide)
  have named : ∀ f ∈ entryPoints, bindings (render (Declaration.function f).blocks) = [f.name] := by
    intro f hf
    rw [made f hf]
    exact bindings_entryPoint (IsWord.of_isIdentifier (word f hf)) (body f hf)
  rw [List.flatMap_congr named]
  rfl

/-- What the file binds besides the namespaces of the models. -/
def ownBindings : List String := [
  "builder", "Objects", "Model", "ResolverType", "OperationMap", "FieldDefiner", "CrudOptions",
  "CrudDescriptor", "CrudTable", "crudDescriptors", "createCrudTable", "batchOperations",
  "includeModel", "listedOperations", "includeOperation", "generateResolversByType",
  "generateAllObjects", "generateAllQueries", "generateAllMutations", "generateAllResolvers",
  "generateAllCrud"]

/-- The file binds the names of the models and its own. -/
theorem bindings_file (h : ∀ m ∈ document.models, IsWord m.name) :
    bindings (file (Plan.build document config.crud) config).render =
      document.models.map (·.name) ++ ownBindings := by
  have some_import : (file (Plan.build document config.crud) config).imports ≠ [] := by
    simp [file]
  obtain ⟨bound_types, bound_filters, bound_resolvers⟩ := bindings_splicedCode
  have declarations : (file (Plan.build document config.crud) config).declarations.flatMap
      (fun d => bindings (render d.blocks)) = ownBindings.drop 2 := by
    simp only [file, List.flatMap_append, List.flatMap_cons, List.flatMap_nil, List.flatMap_map,
      bound_types, bindings_descriptors h, bindings_createTable, bindings_batchOperations,
      bound_filters, bound_resolvers, bindings_entryPoints]
    rfl
  rw [bindings_render rfl some_import, bindings_imports h, declarations, List.append_assoc]
  rfl

/-- Names that the file binds although no lint reserves them. -/
def unguardedBindings : List String := [
  "crudDescriptors", "createCrudTable", "batchOperations", "includeModel", "listedOperations",
  "includeOperation", "generateResolversByType", "generateAllObjects", "generateAllQueries",
  "generateAllMutations", "generateAllResolvers", "generateAllCrud"]

/-- The files of the root, by their names without the ending. -/
def rootNames (config : Config) : List String :=
  (if config.crud.isDisabled then []
    else ["utils", "objects"] ++ if config.crud.generateAutocrud then ["autocrud"] else []) ++
    if config.inputs.isDisabled then [] else ["inputs"]

theorem mem_rootNames {name : String} : name ∈ rootNames config ↔
    (config.crud.isDisabled = false ∧ (name = "utils" ∨ name = "objects" ∨
      (config.crud.generateAutocrud = true ∧ name = "autocrud"))) ∨
    (config.inputs.isDisabled = false ∧ name = "inputs") := by
  simp only [rootNames, List.mem_append, List.mem_ite_nil_left, List.mem_ite_nil_right,
    List.mem_cons, List.not_mem_nil, or_false, Bool.not_eq_true, or_assoc]

theorem isFile_name_iff (h : document.IsNamed) {name : String} (hn : IsWord name) :
    IsFile (preview document config) [name ++ ".ts"] ↔ name ∈ rootNames config := by
  have part : ∀ p ∈ [name ++ ".ts"], Path.IsPart p :=
    List.forall_mem_singleton.mpr (Path.IsPart.of_word hn (by decide))
  have root {other : String} (ending : other ++ ".ts" = name ++ ".ts") : name = other :=
    ((String.append_left_inj ".ts").mp ending).symm
  rw [mem_rootNames]
  constructor
  · intro file
    obtain ⟨a, made, same⟩ := exists_artifact h part (List.cons_ne_nil _ _) file
    cases a with
    | utilities => exact .inl ⟨made.enabled, .inl (root (List.cons.inj same).1)⟩
    | sharedObjects => exact .inl ⟨made.enabled, .inr (.inl (root (List.cons.inj same).1))⟩
    | registration =>
      exact .inl ⟨made.enabled, .inr (.inr ⟨made.wanted, root (List.cons.inj same).1⟩)⟩
    | inputTypes => exact .inr ⟨made.enabled, root (List.cons.inj same).1⟩
    | _ => cases (List.cons.inj same).2
  · rintro (⟨enabled, rfl | rfl | ⟨wanted, rfl⟩⟩ | ⟨enabled, rfl⟩)
    · exact (isFile_iff config h (a := .utilities) trivial).mpr ⟨trivial, trivial, enabled⟩
    · exact (isFile_iff config h (a := .sharedObjects) trivial).mpr ⟨trivial, trivial, enabled⟩
    · exact (isFile_iff config h (a := .registration) trivial).mpr ⟨trivial, wanted, enabled⟩
    · exact (isFile_iff config h (a := .inputTypes) trivial).mpr ⟨trivial, trivial, enabled⟩

section Silence

variable (silent : ((Phase.validate Lint.standard).run { document, config }).1.findings = [])
include silent

theorem check_eq_nil_of_silent {l : Lint} (hl : l ∈ Lint.standard) :
    l.check document config = [] := by
  have none : Lint.standard.flatMap (·.findings document config) = [] := silent
  exact List.map_eq_nil_iff.mp (List.flatMap_eq_nil_iff.mp none l hl)

theorem distinct_of_silent : (document.models.map (·.name)).Nodup := by
  apply Lint.nodup_of_collisions_eq_nil
  have quiet := check_eq_nil_of_silent silent (l := Lint.duplicateModel) (by simp [Lint.standard])
  exact List.map_eq_nil_iff.mp quiet

theorem meaning?_of_silent : ∀ m ∈ document.models, Lint.meaning? m.name = none := by
  have quiet := check_eq_nil_of_silent silent (l := Lint.reservedName) (by simp [Lint.standard])
  intro m hm
  exact Option.map_eq_none_iff.mp (List.filterMap_eq_nil_iff.mp quiet m hm)

end Silence

/-- The lints reserve the names of the file that are not listed as unguarded. -/
theorem mem_ownBindings_iff {name : String} (h : Lint.meaning? name = none) :
    name ∈ ownBindings ↔ name ∈ unguardedBindings := by
  constructor
  · intro own
    have known : ∀ n ∈ ownBindings, Lint.meaning? n = none → n ∈ unguardedBindings := by
      decide
    exact known name own h
  · intro unguarded
    have bound : ∀ n ∈ unguardedBindings, n ∈ ownBindings := by decide
    exact bound name unguarded

/-- Of a document that the lints find nothing in, the registration file binds no name twice unless a
model has a name that the lints do not know; and an import of a model finds a file in the place of
the model's directory exactly when the model is named like a file of the root. -/
theorem bindings_nodup_iff (document : Document) (config : Config)
    (h : ∀ m ∈ document.models, IsWord m.name)
    (silent : ((Phase.validate Lint.standard).run { document, config }).1.findings = []) :
    ((bindings (file (Plan.build document config.crud) config).render).Nodup ↔
        ∀ m ∈ document.models, m.name ∉ unguardedBindings) ∧
      ∀ m ∈ document.models, IsFile (preview document config) [m.name ++ ".ts"] ↔
        m.name ∈ rootNames config := by
  have distinct := distinct_of_silent silent
  have own : ownBindings.Nodup := by decide
  refine ⟨?_, fun m hm => isFile_name_iff ⟨h, distinct⟩ (h m hm)⟩
  -- Either list has no repetition, so the names can only meet between them.
  rw [bindings_file h, List.nodup_append']
  constructor
  · rintro ⟨-, -, apart⟩ m hm unguarded
    exact apart (List.mem_map_of_mem hm)
      ((mem_ownBindings_iff (meaning?_of_silent silent m hm)).mpr unguarded)
  · intro guarded
    refine ⟨distinct, own, ?_⟩
    intro name member bound
    obtain ⟨m, hm, rfl⟩ := List.mem_map.mp member
    exact guarded m hm ((mem_ownBindings_iff (meaning?_of_silent silent m hm)).mp bound)

/-- A document of one model with one field. -/
def oneModel (name : String) : Document :=
  let id : Field := { name := "id", kind := .scalar, type := "Int", isId := true }
  { models := [{ name, fields := [id] }] }

theorem bindings_nodup_iff_order :
    (bindings (file (Plan.build (oneModel "Order") {}) {}).render).Nodup ∧
      ¬ IsFile (preview (oneModel "Order") {}) ["Order.ts"] := by
  have word : ∀ m ∈ (oneModel "Order").models, IsWord m.name :=
    List.forall_mem_singleton.mpr (IsWord.of_isIdentifier (by decide))
  have silent : ((Phase.validate Lint.standard).run
      { document := oneModel "Order", config := {} }).1.findings = [] := by
    decide +kernel
  obtain ⟨distinct, files⟩ := bindings_nodup_iff (oneModel "Order") {} word silent
  refine ⟨distinct.mpr (List.forall_mem_singleton.mpr (by decide)), ?_⟩
  have place : "Order" ++ ".ts" = "Order.ts" := by decide
  rw [← place, files _ (List.mem_singleton_self _)]
  decide

/-- Nothing is found in a model that is named like a constant of the file, but the file binds its
name twice. -/
theorem filter_name_bound_twice :
    IsWord "includeModel" ∧
      ((Phase.validate Lint.standard).run
        { document := oneModel "includeModel", config := {} }).1.findings = [] ∧
      ¬ (bindings (file (Plan.build (oneModel "includeModel") {}) {}).render).Nodup := by
  have word : IsWord "includeModel" := IsWord.of_isIdentifier (by decide)
  refine ⟨word, by decide +kernel, ?_⟩
  have bound : bindings (file (Plan.build (oneModel "includeModel") {}) {}).render =
      ["includeModel"] ++ ownBindings :=
    @bindings_file (oneModel "includeModel") {} (List.forall_mem_singleton.mpr word)
  rw [bound]
  decide

end Output.Registration
end GraphqlCrud
