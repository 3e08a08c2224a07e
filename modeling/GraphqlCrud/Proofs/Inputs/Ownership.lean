import GraphqlCrud.Inputs.Catalog
import GraphqlCrud.Proofs.Text.Search
/-!
Which inputs belong to a model, and which are declared at all.
-/
namespace GraphqlCrud.Inputs

open Schema

theorem isSome_greatestBy {α : Type} (key : α → Nat) (items : List α) :
    (greatestBy key items).isSome = true ↔ items ≠ [] := by
  cases items with
  | nil => simp [greatestBy]
  | cons x rest =>
    simp only [greatestBy, ne_eq, reduceCtorEq, not_false_eq_true, iff_true]
    split
    · rfl
    · split <;> rfl

theorem greatestBy_eq_none {α : Type} {key : α → Nat} {items : List α} :
    greatestBy key items = none ↔ items = [] := by
  rw [← Option.not_isSome_iff_eq_none, isSome_greatestBy, ne_eq, Classical.not_not]

theorem mem_of_greatestBy {α : Type} {key : α → Nat} {items : List α} {x : α}
    (h : greatestBy key items = some x) : x ∈ items := by
  induction items generalizing x with
  | nil => cases h
  | cons first rest ih =>
    rw [greatestBy] at h
    split at h
    · obtain rfl := Option.some.inj h
      exact List.mem_cons_self
    · next y hy =>
      split at h
      · obtain rfl := Option.some.inj h
        exact List.mem_cons_self
      · obtain rfl := Option.some.inj h
        exact List.mem_cons_of_mem _ (ih hy)

theorem le_of_greatestBy {α : Type} {key : α → Nat} {items : List α} {x : α}
    (h : greatestBy key items = some x) : ∀ y ∈ items, key y ≤ key x := by
  induction items generalizing x with
  | nil => cases h
  | cons first rest ih =>
    rw [greatestBy] at h
    rw [List.forall_mem_cons]
    cases hrest : greatestBy key rest with
    | none =>
      rw [hrest] at h
      obtain rfl := Option.some.inj h
      rw [greatestBy_eq_none.mp hrest]
      exact ⟨Nat.le_refl _, List.forall_mem_nil _⟩
    | some z =>
      rw [hrest] at h
      have greatest := ih hrest
      dsimp only at h
      split at h
      · next less =>
        obtain rfl := Option.some.inj h
        exact ⟨Nat.le_refl _, fun y hy => Nat.le_trans (greatest y hy) (Nat.le_of_lt less)⟩
      · next notLess =>
        obtain rfl := Option.some.inj h
        exact ⟨Nat.le_of_not_lt notLess, greatest⟩

theorem belongsTo_iff {inputName : String} {m : Model} :
    belongsTo inputName m = true ↔
      ∃ keyword ∈ modelKeywords, ∃ rest, inputName = m.name ++ keyword ++ rest := by
  unfold belongsTo
  cases h : Text.dropLeading? m.name inputName with
  | none =>
    simp only [Bool.false_eq_true, false_iff]
    rintro ⟨keyword, -, rest, rfl⟩
    rw [String.append_assoc, Text.dropLeading?_append] at h
    cases h
  | some rest =>
    obtain rfl := Text.dropLeading?_eq_some.mp h
    simp only [List.any_eq_true, Text.begins_iff, String.append_assoc, String.append_right_inj]

theorem isSome_owner? {document : Document} {inputName : String} :
    (owner? document inputName).isSome = true ↔
      ∃ m ∈ document.models, belongsTo inputName m = true := by
  rw [owner?, isSome_greatestBy, ne_eq, List.filter_eq_nil_iff]
  simp

/-- What begins with a model's name and a keyword is declared. -/
theorem isSelected_of_keyword {document : Document} {m : Model} (hm : m ∈ document.models)
    {keyword : String} (hk : keyword ∈ modelKeywords) (rest : String) :
    isSelected document (m.name ++ keyword ++ rest) = true := by
  have owned : (owner? document (m.name ++ keyword ++ rest)).isSome = true :=
    isSome_owner?.mpr ⟨m, hm, belongsTo_iff.mpr ⟨keyword, hk, rest, rfl⟩⟩
  rw [isSelected, owned, Bool.or_true]

end GraphqlCrud.Inputs
