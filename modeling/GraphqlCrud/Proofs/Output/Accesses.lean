import Mathlib.Data.List.Basic
import GraphqlCrud.Proofs.Output.DescriptorEntries
import GraphqlCrud.Proofs.Output.Symbols
/-!
Which symbols the table of descriptors takes from the modules of the models.
-/
namespace GraphqlCrud.Output.Registration

open Text

/-- The line `key: M.X,` takes the symbol `X` from the module `M`. -/
def IsAccess (line model symbol : String) : Prop :=
  ∃ head, ':' ∉ head.toList ∧ '.' ∉ model.toList ∧
    line = head ++ ": " ++ model ++ "." ++ symbol ++ ","

theorem IsAccess.dot {line model symbol : String} (h : IsAccess line model symbol) :
    '.' ∈ line.toList := by
  obtain ⟨head, -, -, rfl⟩ := h
  simp

theorem IsAccess.inj {head model symbol model' symbol' : String} (hhead : ':' ∉ head.toList)
    (hmodel : '.' ∉ model.toList)
    (h : IsAccess (head ++ ": " ++ model ++ "." ++ symbol ++ ",") model' symbol') :
    model' = model ∧ symbol' = symbol := by
  have colon : ":".toList = ':' :: [] := by decide
  have dot : ".".toList = '.' :: [] := by decide
  have space : ": " = ":" ++ " " := by decide
  obtain ⟨head', hhead', hmodel', same⟩ := h
  simp only [String.append_assoc, space] at same
  obtain ⟨-, same⟩ := append_append_inj hhead hhead' colon same
  rw [String.append_right_inj] at same
  obtain ⟨models, same⟩ := append_append_inj hmodel hmodel' dot same
  exact ⟨models.symm, (String.append_left_inj ",").mp same.symm⟩

theorem entryLine_eq (model : String) (t : RootType) (o : Operation) :
    entryLine model t o = "      " ++ o.name ++ ": " ++ model ++ "." ++
      (fieldSymbol model t o ++ "Object") ++ "," := by
  have ending : "Object," = "Object" ++ "," := by decide
  simp only [entryLine, ending, String.append_assoc]

theorem notMem_entryKey (o : Operation) : ':' ∉ ("      " ++ o.name).toList := by
  rw [String.toList_append, List.mem_append, not_or]
  exact ⟨by decide, (isWord_operation o).notMem (by decide) (by decide)⟩

theorem objectLine_eq (model : String) :
    "    object: " ++ model ++ "." ++ model ++ "Object," =
      "    object" ++ ": " ++ model ++ "." ++ (model ++ "Object") ++ "," := by
  have ending : "Object," = "Object" ++ "," := by decide
  have key : "    object: " = "    object" ++ ": " := by decide
  simp only [ending, key, String.append_assoc]

/-- A line without dots, or one that takes a symbol of the model from the model's module. -/
def IsPlainOrAccess (config : CrudConfig) (model line : String) : Prop :=
  '.' ∉ line.toList ∨ ∃ head symbol, ':' ∉ head.toList ∧ symbol ∈ exportedSymbols config model ∧
    line = head ++ ": " ++ model ++ "." ++ symbol ++ ","

theorem entryLine_cases {config : CrudConfig} {model : String} {t : RootType} {o : Operation}
    (ho : o ∈ Plan.survivors config model t) :
    IsPlainOrAccess config model (entryLine model t o) := by
  obtain ⟨type, kept⟩ := Plan.mem_survivors.mp ho
  refine .inr ⟨_, fieldSymbol model t o ++ "Object", notMem_entryKey o, ?_, entryLine_eq model t o⟩
  refine List.mem_cons_of_mem _ (List.mem_flatMap.mpr ⟨o, ?_, ?_⟩)
  · exact Plan.mem_operations_surviving.mpr kept
  · rw [type]
    exact List.mem_cons_of_mem _ List.mem_cons_self

theorem mapLines_cases {config : CrudConfig} {model key line : String} {t : RootType}
    (opening : '.' ∉ ("    " ++ key ++ ": \x7b").toList)
    (both : '.' ∉ ("    " ++ key ++ ": \x7b\x7d,").toList)
    (member : line ∈ mapLines key ((Plan.survivors config model t).map (entryLine model t))) :
    IsPlainOrAccess config model line := by
  rw [mapLines] at member
  split at member
  · obtain rfl := List.mem_singleton.mp member
    exact .inl both
  · rcases List.mem_cons.mp member with rfl | member
    · exact .inl opening
    · rcases List.mem_append.mp member with entry | closing
      · obtain ⟨o, ho, rfl⟩ := List.mem_map.mp entry
        exact entryLine_cases ho
      · obtain rfl := List.mem_singleton.mp closing
        exact .inl (by decide)

theorem descriptorLines_cases {config : CrudConfig} {model line : String} (h : IsWord model)
    (member : line ∈ descriptorLines config model) : IsPlainOrAccess config model line := by
  have no_dot : '.' ∉ ("    modelName: '" ++ model ++ "',").toList := by
    simp only [String.toList_append, List.mem_append, not_or]
    exact ⟨⟨by decide, h.notMem (by decide) (by decide)⟩, by decide⟩
  simp only [descriptorLines, List.mem_append, List.mem_cons, List.not_mem_nil, or_false]
    at member
  rcases member with (((rfl | rfl | rfl) | queries) | mutations) | rfl
  · exact .inl (by decide)
  · exact .inl no_dot
  · exact .inr ⟨_, _, by decide, List.mem_cons_self, objectLine_eq model⟩
  · exact mapLines_cases (by decide) (by decide) queries
  · exact mapLines_cases (by decide) (by decide) mutations
  · exact .inl (by decide)

variable {config : CrudConfig} {models : List String} {line : String}

theorem tableLines_cases (word : ∀ m ∈ models, IsWord m)
    (member : line ∈ tableLines config models) :
    '.' ∉ line.toList ∨ ∃ m ∈ models, IsPlainOrAccess config m line := by
  rw [tableLines] at member
  split at member
  · obtain rfl := List.mem_singleton.mp member
    exact .inl (by decide)
  · rcases List.mem_cons.mp member with rfl | member
    · exact .inl (by decide)
    · rcases List.mem_append.mp member with member | closing
      · obtain ⟨m, hm, member⟩ := List.mem_flatMap.mp member
        exact .inr ⟨m, hm, descriptorLines_cases (word m hm) member⟩
      · obtain rfl := List.mem_singleton.mp closing
        exact .inl (by decide)

/-- Whatever the table takes from a module is a symbol of the model. -/
theorem access_tableLines (word : ∀ m ∈ models, IsWord m) {model symbol : String}
    (member : line ∈ tableLines config models) (access : IsAccess line model symbol) :
    model ∈ models ∧ symbol ∈ exportedSymbols config model := by
  rcases tableLines_cases word member with plain | ⟨m, hm, plain | ⟨head, s, hhead, hs, rfl⟩⟩
  · exact absurd access.dot plain
  · exact absurd access.dot plain
  · obtain ⟨rfl, rfl⟩ := access.inj hhead ((word m hm).notMem (by decide) (by decide))
    exact ⟨hm, hs⟩

/-- There is no dot in the table but in such lines. -/
theorem isAccess_of_dot (word : ∀ m ∈ models, IsWord m) (member : line ∈ tableLines config models)
    (dot : '.' ∈ line.toList) : ∃ model symbol, IsAccess line model symbol := by
  rcases tableLines_cases word member with plain | ⟨m, hm, plain | ⟨head, s, hhead, -, rfl⟩⟩
  · exact absurd dot plain
  · exact absurd dot plain
  · exact ⟨m, s, head, hhead, (word m hm).notMem (by decide) (by decide), rfl⟩

end GraphqlCrud.Output.Registration
