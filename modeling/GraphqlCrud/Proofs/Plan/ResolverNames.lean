import Mathlib.Data.List.Nodup
import GraphqlCrud.Proofs.Plan.Resolvers
/-!
Resolver names. Nothing stands between the operation and the model in a resolver's name, but no
operation's name begins another's, so the two can be read back from it.
-/
namespace GraphqlCrud

namespace Operation

theorem eq_of_isPrefixOf {o p : Operation} (h : o.name.toList <+: p.name.toList) : o = p := by
  have apart : ∀ o ∈ all, ∀ p ∈ all, o.name.toList <+: p.name.toList → o = p := by decide +kernel
  exact apart o o.mem_all p p.mem_all h

theorem eq_of_append {o p : Operation} {x y : String} (same : o.name ++ x = p.name ++ y) :
    o = p := by
  have first : o.name.toList <+: (p.name ++ y).toList := by
    rw [← same, String.toList_append]
    exact List.prefix_append _ _
  have second : p.name.toList <+: (p.name ++ y).toList := by
    rw [String.toList_append]
    exact List.prefix_append _ _
  rcases List.prefix_or_prefix_of_prefix first second with h | h
  · exact eq_of_isPrefixOf h
  · exact (eq_of_isPrefixOf h).symm

theorem resolverName_inj {o p : Operation} {model other : String}
    (same : o.resolverName model = p.resolverName other) : o = p ∧ model = other := by
  obtain rfl := eq_of_append same
  exact ⟨rfl, String.append_right_inj o.name |>.mp same⟩

end Operation

namespace Plan

open Schema

variable {document : Document}

theorem candidates_nodup (distinct : (document.models.map (·.name)).Nodup) :
    (candidates document).Nodup := by
  have operations : Operation.all.Nodup := by decide
  refine List.nodup_flatMap.mpr ⟨?_, ?_⟩
  · intro m _
    exact operations.map fun o p same => (Prod.mk.inj same).2
  · refine (List.pairwise_map.mp distinct).imp ?_
    intro m n other pair hm hn
    obtain ⟨o, -, rfl⟩ := List.mem_map.mp hm
    obtain ⟨p, -, same⟩ := List.mem_map.mp hn
    exact other (Prod.mk.inj same).1.symm

theorem resolverNames_nodup (config : CrudConfig)
    (distinct : (document.models.map (·.name)).Nodup) :
    ((build document config).resolvers.map (·.name)).Nodup := by
  rw [resolvers_eq_candidates, List.map_map]
  refine ((candidates_nodup distinct).filter _).map ?_
  intro pair other same
  obtain ⟨operation, model⟩ := Operation.resolverName_inj same
  exact Prod.ext model operation

end Plan
end GraphqlCrud
