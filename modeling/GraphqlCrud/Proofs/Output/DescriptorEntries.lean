import Mathlib.Data.List.Nodup
import GraphqlCrud.Proofs.Output.Descriptors
import GraphqlCrud.Proofs.Text.Search
/-!
How often a resolver is listed in the table of descriptors. The lines that list resolvers are the
ones that stand at the third level.
-/
namespace GraphqlCrud.Output.Registration

open Text

def entryLines (config : CrudConfig) (model : String) : List String :=
  (Plan.survivors config model .query).map (entryLine model .query) ++
    (Plan.survivors config model .mutation).map (entryLine model .mutation)

def isDeep (line : String) : Bool := begins "      " line

theorem isDeep_entryLine (model : String) (t : RootType) (o : Operation) :
    isDeep (entryLine model t o) = true := by
  simp only [isDeep, entryLine, String.append_assoc]
  exact begins_append _ _

theorem filter_map_entryLine (model : String) (t : RootType) (os : List Operation) :
    (os.map (entryLine model t)).filter isDeep = os.map (entryLine model t) := by
  apply List.filter_eq_self.mpr
  intro line hline
  obtain ⟨o, -, rfl⟩ := List.mem_map.mp hline
  exact isDeep_entryLine model t o

theorem filter_mapLines (key : String) (opening : isDeep ("    " ++ key ++ ": \x7b") = false)
    (both : isDeep ("    " ++ key ++ ": \x7b\x7d,") = false) (model : String) (t : RootType)
    (os : List Operation) :
    (mapLines key (os.map (entryLine model t))).filter isDeep = os.map (entryLine model t) := by
  have closing : isDeep "    \x7d," = false := by decide
  rw [mapLines]
  split
  · next none =>
    rw [none, List.filter_singleton, both]
    rfl
  · simp [opening, closing, filter_map_entryLine]

theorem filter_descriptorLines (config : CrudConfig) (model : String) :
    (descriptorLines config model).filter isDeep = entryLines config model := by
  have name_line : isDeep ("    modelName: '" ++ model ++ "',") = false := by
    rw [isDeep, begins, String.append_assoc, String.toList_append]
    rfl
  have object_line : isDeep ("    object: " ++ model ++ "." ++ model ++ "Object,") = false := by
    rw [isDeep, begins]
    simp only [String.append_assoc]
    rw [String.toList_append]
    rfl
  have opening : isDeep "  \x7b" = false := by decide
  have closing : isDeep "  \x7d," = false := by decide
  have queries := filter_mapLines "queries" (by decide) (by decide) model .query
  have mutations := filter_mapLines "mutations" (by decide) (by decide) model .mutation
  simp [descriptorLines, opening, closing, name_line, object_line, queries, mutations, entryLines]

theorem filter_tableLines (config : CrudConfig) (models : List String) :
    (tableLines config models).filter isDeep = models.flatMap (entryLines config) := by
  have empty_table : isDeep (tableHead ++ "[]" ++ ";") = false := by decide
  have opening : isDeep (tableHead ++ "[") = false := by decide
  have closing : isDeep "];" = false := by decide
  rw [tableLines]
  split
  · next none => simp [none, empty_table]
  · simp [opening, closing, List.filter_flatMap, filter_descriptorLines]

theorem entryLine_inj {model model' : String} (h : IsWord model) (h' : IsWord model')
    {t t' : RootType} {o o' : Operation} (same : entryLine model t o = entryLine model' t' o') :
    model = model' ∧ o = o' := by
  have colon : ":".toList = ':' :: [] := by decide
  have dot : ".".toList = '.' :: [] := by decide
  have space : ": " = ":" ++ " " := by decide
  simp only [entryLine, String.append_assoc, String.append_right_inj, space] at same
  have no_colon (p : Operation) : ':' ∉ p.name.toList :=
    (isWord_operation p).notMem (by decide) (by decide)
  obtain ⟨operation, same⟩ := append_append_inj (no_colon o) (no_colon o') colon same
  rw [String.append_right_inj] at same
  obtain ⟨names, -⟩ := append_append_inj (h.notMem (by decide) (by decide))
    (h'.notMem (by decide) (by decide)) dot same
  refine ⟨names, ?_⟩
  revert operation
  cases o <;> cases o' <;> decide

theorem mem_entryLines {config : CrudConfig} {model line : String} :
    line ∈ entryLines config model ↔
      ∃ o, config.keepsName (o.resolverName model) = true ∧
        entryLine model o.rootType o = line := by
  simp only [entryLines, List.mem_append, List.mem_map, Plan.mem_survivors]
  constructor
  · rintro (⟨o, ⟨type, kept⟩, rfl⟩ | ⟨o, ⟨type, kept⟩, rfl⟩)
    · exact ⟨o, kept, by rw [type]⟩
    · exact ⟨o, kept, by rw [type]⟩
  · rintro ⟨o, kept, rfl⟩
    cases type : o.rootType with
    | query => exact .inl ⟨o, ⟨type, kept⟩, rfl⟩
    | mutation => exact .inr ⟨o, ⟨type, kept⟩, rfl⟩

theorem nodup_entryLines (config : CrudConfig) {model : String} (h : IsWord model) :
    (entryLines config model).Nodup := by
  have each (t : RootType) : ((Plan.survivors config model t).map (entryLine model t)).Nodup :=
    (Plan.survivors_nodup config model t).map fun _ _ same => (entryLine_inj h h same).2
  refine List.Nodup.append (each .query) (each .mutation) ?_
  intro line query mutation
  obtain ⟨o, ho, rfl⟩ := List.mem_map.mp query
  obtain ⟨p, hp, same⟩ := List.mem_map.mp mutation
  obtain rfl := (entryLine_inj h h same).2
  have impossible := (Plan.mem_survivors.mp ho).1.symm.trans (Plan.mem_survivors.mp hp).1
  cases impossible

/-- A resolver is listed once if the configuration keeps it, and not at all otherwise. -/
theorem count_entryLine (config : CrudConfig) {models : List String} (distinct : models.Nodup)
    (word : ∀ m ∈ models, IsWord m) {model : String} (hm : model ∈ models) (o : Operation) :
    (tableLines config models).count (entryLine model o.rootType o) =
      if config.keepsName (o.resolverName model) then 1 else 0 := by
  have listed : (models.flatMap (entryLines config)).Nodup := by
    rw [List.nodup_flatMap]
    refine ⟨fun m hm => nodup_entryLines config (word m hm), distinct.imp_of_mem ?_⟩
    intro m n hm hn apart line first second
    obtain ⟨o, -, rfl⟩ := mem_entryLines.mp first
    obtain ⟨p, -, same⟩ := mem_entryLines.mp second
    exact apart (entryLine_inj (word m hm) (word n hn) same.symm).1
  have member : entryLine model o.rootType o ∈ models.flatMap (entryLines config) ↔
      config.keepsName (o.resolverName model) = true := by
    rw [List.mem_flatMap]
    constructor
    · rintro ⟨other, hother, hline⟩
      obtain ⟨p, kept, same⟩ := mem_entryLines.mp hline
      obtain ⟨rfl, rfl⟩ := entryLine_inj (word _ hother) (word _ hm) same
      exact kept
    · intro kept
      exact ⟨model, hm, mem_entryLines.mpr ⟨o, kept, rfl⟩⟩
  -- Only deep lines are counted, and these are the entries alone.
  rw [← List.count_filter (isDeep_entryLine model o.rootType o), filter_tableLines,
    listed.count]
  simp only [member]

end GraphqlCrud.Output.Registration
