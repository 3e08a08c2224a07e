import Mathlib.Data.List.Nodup
import GraphqlCrud.Proofs.Output.Descriptors
import GraphqlCrud.Proofs.Plan.ResolverNames
/-!
The symbols that the files of a model export. No two of them are the same, so that every one can be
exported through one index.
-/
namespace GraphqlCrud.Output

open Registration

/-- The symbols of a model: its object, then for every resolver its field and the object that
defines it. -/
def exportedSymbols (config : CrudConfig) (model : String) : List String :=
  (model ++ "Object") :: (Plan.surviving config model).operations.flatMap fun o =>
    [fieldSymbol model o.rootType o, fieldSymbol model o.rootType o ++ "Object"]

theorem operation_eq_of_symbol {model x y : String} {t u : RootType} {o p : Operation}
    (same : fieldSymbol model t o ++ x = fieldSymbol model u p ++ y) : o = p := by
  simp only [fieldSymbol, Operation.resolverName, String.append_assoc] at same
  exact Operation.eq_of_append same

theorem symbol_ne_object (model : String) (t : RootType) (o : Operation) (ending : String) :
    model ++ "Object" ≠ fieldSymbol model t o ++ ending := by
  intro same
  have lengths := congrArg String.length same
  have operation : 5 ≤ o.name.length := by cases o <;> decide
  have type : 5 ≤ t.name.length := by cases t <;> decide
  have object : "Object".length = 6 := by decide
  simp only [fieldSymbol, Operation.resolverName, String.length_append] at lengths
  omega

theorem exportedSymbols_nodup (config : CrudConfig) (model : String) :
    (exportedSymbols config model).Nodup := by
  refine List.nodup_cons.mpr ⟨?_, List.nodup_flatMap.mpr ⟨?_, ?_⟩⟩
  · intro member
    obtain ⟨o, -, ho⟩ := List.mem_flatMap.mp member
    rcases List.mem_pair.mp ho with same | same
    · exact symbol_ne_object model o.rootType o "" (by rw [same, String.append_empty])
    · exact symbol_ne_object model o.rootType o "Object" same
  · intro o _
    have longer : fieldSymbol model o.rootType o ≠ fieldSymbol model o.rootType o ++ "Object" := by
      intro same
      have lengths := congrArg String.length same
      have object : "Object".length = 6 := by decide
      rw [String.length_append] at lengths
      omega
    simpa using longer
  · refine (Plan.operations_surviving_nodup config model).imp ?_
    intro o p apart symbol first second
    apply apart
    have begins {q : Operation} (h : symbol ∈ [fieldSymbol model q.rootType q,
        fieldSymbol model q.rootType q ++ "Object"]) :
        ∃ ending, symbol = fieldSymbol model q.rootType q ++ ending := by
      rcases List.mem_pair.mp h with rfl | rfl
      · exact ⟨"", String.append_empty.symm⟩
      · exact ⟨"Object", rfl⟩
    obtain ⟨x, hx⟩ := begins first
    obtain ⟨y, hy⟩ := begins second
    exact operation_eq_of_symbol (hx.symm.trans hy)

end GraphqlCrud.Output
