import GraphqlCrud.Schema.Reference
/-!
The type that the declaration of a field names is one that the field accepts.
-/
namespace GraphqlCrud.Schema

theorem leastBy_mem {α : Type} {key : α → Nat} {items : List α} {x : α}
    (h : leastBy key items = some x) : x ∈ items := by
  induction items generalizing x with
  | nil => cases h
  | cons first rest ih =>
    rw [leastBy] at h
    split at h
    · obtain rfl := Option.some.inj h
      exact List.mem_cons_self
    · next y hy =>
      split at h
      · obtain rfl := Option.some.inj h
        exact List.mem_cons_self
      · obtain rfl := Option.some.inj h
        exact List.mem_cons_of_mem _ (ih hy)

theorem InputField.mem_of_mainType? {f : InputField} {t : TypeRef} (h : f.mainType? = some t) :
    t ∈ f.accepts := by
  rw [InputField.mainType?] at h
  split at h
  · next least =>
    obtain rfl := Option.some.inj h
    exact (List.mem_filter.mp (leastBy_mem least)).1
  · exact List.mem_of_head? h

theorem SpecialScalar.isUsedIn_of_mainType? {s : SpecialScalar} {inputs : List InputType}
    {input : InputType} (hi : input ∈ inputs) {f : InputField} (hf : f ∈ input.fields)
    {t : TypeRef} (h : f.mainType? = some t) (location : t.location = .scalar)
    (name : t.name = s.name) : s.isUsedIn inputs = true := by
  simp only [SpecialScalar.isUsedIn, List.any_eq_true, Bool.and_eq_true, beq_iff_eq]
  exact ⟨input, hi, f, hf, t, InputField.mem_of_mainType? h, location, name⟩

def scalarNames : List String :=
  ["String", "Int", "Float", "Boolean"] ++ SpecialScalar.all.map SpecialScalar.name

/-- The document has a type of the name at the location, or the name is that of a known scalar. -/
def Document.Gives (document : Document) (name : String) : Location → Prop
  | .scalar => name ∈ scalarNames
  | .input => ∃ input ∈ document.inputs, input.name = name
  | .enum => ∃ e ∈ document.enums, e.name = name
  | .output | .fieldReference => False

instance (document : Document) (name : String) :
    ∀ location, Decidable (document.Gives name location)
  | .scalar => inferInstanceAs (Decidable (name ∈ scalarNames))
  | .input => inferInstanceAs (Decidable (∃ input ∈ document.inputs, input.name = name))
  | .enum => inferInstanceAs (Decidable (∃ e ∈ document.enums, e.name = name))
  | .output | .fieldReference => inferInstanceAs (Decidable False)

/-- Every type that the declaration of an input field names is one that the document gives. -/
def Document.ReferencesClosed (document : Document) : Prop :=
  ∀ input ∈ document.inputs, ∀ f ∈ input.fields, ∀ t ∈ f.mainType?, document.Gives t.name t.location

instance (document : Document) : Decidable document.ReferencesClosed :=
  inferInstanceAs (Decidable (∀ input ∈ document.inputs, ∀ f ∈ input.fields, ∀ t ∈ f.mainType?,
    document.Gives t.name t.location))

end GraphqlCrud.Schema
