import Mathlib.Data.List.Nodup
import GraphqlCrud.Proofs.Inputs.DeclaredNames
/-!
What is declared of the inputs of a schema. Declarations stand in the order of the schema, each name
is declared once, and every selected name of an input without its marker is declared.
-/
namespace GraphqlCrud.Inputs

open Schema

/-! Order and distinctness of what is chosen -/

theorem hold_sublist (document : Document) (held : List (InputType × String)) (input : InputType) :
    (hold document held input).Sublist (held ++ candidatesAmong document [input]) := by
  rw [hold]
  split
  · next taken =>
    rw [Bool.and_eq_true] at taken
    have added : candidatesAmong document [input] = [(input, checkedName input.name)] := by
      simp [candidatesAmong, taken.1]
    rw [added]
  · exact List.sublist_append_left _ _

theorem foldl_hold_sublist (document : Document) (inputs : List InputType)
    (held : List (InputType × String)) :
    (inputs.foldl (hold document) held).Sublist (held ++ candidatesAmong document inputs) := by
  induction inputs generalizing held with
  | nil => exact List.sublist_append_left _ _
  | cons input inputs ih =>
    have split : candidatesAmong document (input :: inputs) =
        candidatesAmong document [input] ++ candidatesAmong document inputs :=
      candidatesAmong_append document [input] inputs
    rw [List.foldl_cons, split, ← List.append_assoc]
    exact (ih _).trans ((hold_sublist document held input).append_right _)

theorem chosen_sublist (document : Document) :
    (chosen document).Sublist (candidatesAmong document document.inputs) :=
  foldl_hold_sublist document document.inputs []

theorem map_fst_candidatesAmong_sublist (document : Document) (inputs : List InputType) :
    ((candidatesAmong document inputs).map (·.1)).Sublist inputs := by
  have paired : (inputs.map fun input => (input, checkedName input.name)).map (·.1) = inputs := by
    rw [List.map_map]
    exact List.map_id _
  have kept := (List.filter_sublist (p := fun c : InputType × String =>
    isSelected document c.2 && !hasTwin document c.1)
    (l := inputs.map fun input => (input, checkedName input.name))).map (·.1)
  rwa [paired] at kept

theorem hold_names_nodup {document : Document} {held : List (InputType × String)}
    (distinct : (held.map (·.2)).Nodup) (input : InputType) :
    ((hold document held input).map (·.2)).Nodup := by
  rw [hold]
  split
  · next taken =>
    have fresh : checkedName input.name ∉ held.map (·.2) := by
      intro old
      obtain ⟨c, hc, same⟩ := List.mem_map.mp old
      simp only [Bool.and_eq_true, Bool.not_eq_true', List.any_eq_false, beq_iff_eq] at taken
      exact taken.2 c hc same
    rw [List.map_append, List.map_singleton, ← List.concat_eq_append]
    exact distinct.concat fresh
  · exact distinct

theorem chosen_names_nodup (document : Document) : ((chosen document).map (·.2)).Nodup := by
  have run (inputs : List InputType) (held : List (InputType × String))
      (distinct : (held.map (·.2)).Nodup) :
      ((inputs.foldl (hold document) held).map (·.2)).Nodup := by
    induction inputs generalizing held with
    | nil => exact distinct
    | cons input inputs ih => exact ih _ (hold_names_nodup distinct input)
  exact run document.inputs [] List.nodup_nil

theorem name_of_mem_chosen {document : Document} {c : InputType × String}
    (h : c ∈ chosen document) : checkedName c.1.name = c.2 ∧ isSelected document c.2 = true := by
  obtain ⟨paired, eligible⟩ := List.mem_filter.mp (mem_chosen.mp h).mem
  obtain ⟨input, -, rfl⟩ := List.mem_map.mp paired
  rw [Bool.and_eq_true] at eligible
  exact ⟨rfl, eligible.1⟩

/-! Which input a name is declared for -/

/-- Among items with different keys each is the only one of its key. -/
theorem filter_key_eq {α : Type} {key : α → String} {items : List α}
    (distinct : (items.map key).Nodup) {x : α} (hx : x ∈ items) :
    items.filter (key · == key x) = [x] := by
  induction items with
  | nil => cases hx
  | cons y items ih =>
    obtain ⟨fresh, distinct⟩ := List.nodup_cons.mp distinct
    rcases List.mem_cons.mp hx with rfl | later
    · have none : items.filter (key · == key x) = [] := by
        rw [List.filter_eq_nil_iff]
        intro z hz same
        exact fresh (List.mem_map.mpr ⟨z, hz, beq_iff_eq.mp same⟩)
      rw [List.filter_cons, if_pos (beq_self_eq_true _), none]
    · have other : ¬ (key y == key x) = true := by
        intro same
        exact fresh (List.mem_map.mpr ⟨x, later, (beq_iff_eq.mp same).symm⟩)
      rw [List.filter_cons, if_neg other, ih distinct later]

/-- A selected name is declared for the first input that has it without its marker and gives way to
none. -/
theorem mem_chosen_of_find? {document : Document} {name : String}
    (selected : isSelected document name = true) {input : InputType}
    (first : document.inputs.find? (fun i => checkedName i.name == name && !hasTwin document i) =
      some input) : (input, name) ∈ chosen document := by
  have found : (candidatesAmong document document.inputs).find? (·.2 == name) =
      (document.inputs.find? fun i => checkedName i.name == name && !hasTwin document i).map
        fun i => (i, checkedName i.name) := by
    rw [candidatesAmong, List.find?_filter, List.find?_map]
    refine congrArg _ (congrArg (List.find? · document.inputs) (funext fun i => ?_))
    by_cases same : checkedName i.name = name
    · simp [same, selected]
    · simp [same]
  have stripped : checkedName input.name = name := by
    have both := List.find?_some first
    rw [Bool.and_eq_true, beq_iff_eq] at both
    exact both.1
  rw [mem_chosen, IsFirst, found, first, Option.map_some, stripped]

/-- A name that some input has outright is declared for the first input of that name. -/
theorem mem_chosen_of_input? {document : Document} {name : String}
    (selected : isSelected document name = true)
    (unmarked : Text.occurs uncheckedMarker name = false) {input : InputType}
    (first : document.input? name = some input) : (input, name) ∈ chosen document := by
  have holder : input.name = name := by simpa only [beq_iff_eq] using List.find?_some first
  have member : input ∈ document.inputs := List.mem_of_find?_eq_some first
  apply mem_chosen_of_find? selected
  rw [← first, Document.input?]
  refine congrArg (List.find? · document.inputs) (funext fun i => ?_)
  rw [Bool.eq_iff_iff, Bool.and_eq_true, Bool.not_eq_true', hasTwin_eq_false_iff, beq_iff_eq,
    beq_iff_eq]
  constructor
  · rintro ⟨stripped, same | absent⟩
    · rw [← same, stripped]
    · exact absurd (holder.trans stripped.symm) (absent input member)
  · intro same
    have kept : checkedName i.name = i.name := checkedName_eq_self_iff.mpr (same ▸ unmarked)
    exact ⟨kept.trans same, .inl kept⟩

/-- A name that no input has outright is declared for the first input that has it without its
marker. -/
theorem mem_chosen_of_stripped {document : Document} {name : String}
    (selected : isSelected document name = true)
    (absent : ∀ other ∈ document.inputs, other.name ≠ name) {input : InputType}
    (first : document.inputs.find? (checkedName ·.name == name) = some input) :
    (input, name) ∈ chosen document := by
  apply mem_chosen_of_find? selected
  rw [← first]
  refine congrArg (List.find? · document.inputs) (funext fun i => ?_)
  by_cases stripped : checkedName i.name = name
  · have single : hasTwin document i = false :=
      hasTwin_eq_false_iff.mpr (.inr (stripped ▸ absent))
    simp [single]
  · simp [stripped]

/-! The declarations -/

variable {document : Document} {config : Config}

theorem names_select_nodup : ((select document config).map (·.name)).Nodup := by
  have names : (select document config).map (·.name) = (chosen document).map (·.2) := by
    rw [select, List.map_map]
    rfl
  rw [names]
  exact chosen_names_nodup document

theorem filter_select_eq {c : InputType × String} (h : c ∈ chosen document) :
    (select document config).filter (·.name == c.2) = [declare document config c.1 c.2] :=
  filter_key_eq (x := declare document config c.1 c.2) names_select_nodup (List.mem_map_of_mem h)

/-- The declarations of the inputs of a schema: none is made twice and none is missing. -/
structure DeclaresInputs (document : Document) (config : Config)
    (declarations : List InputDeclaration) : Prop where
  distinct : (declarations.map (·.name)).Nodup
  /-- They are made of inputs in the order of the schema, under their names without the marker. -/
  inOrder : ∃ sources : List InputType, sources.Sublist document.inputs ∧
    declarations = sources.map fun input => declare document config input (checkedName input.name)
  selected : ∀ d ∈ declarations,
    d.name = checkedName d.clientName ∧ isSelected document d.name = true
  /-- An input without the marker is declared as itself, wherever its marked variants stand. -/
  outright : ∀ input ∈ document.inputs, Text.occurs uncheckedMarker input.name = false →
    isSelected document input.name = true →
      ∃ d, declarations.filter (·.name == input.name) = [d] ∧ d.clientName = input.name
  /-- A name that no input has outright is declared once, for the first that is stripped to it. -/
  stripped : ∀ marked ∈ document.inputs, isSelected document (checkedName marked.name) = true →
    (∀ other ∈ document.inputs, other.name ≠ checkedName marked.name) →
      ∃ first d, document.inputs.find? (checkedName ·.name == checkedName marked.name) = some first ∧
        declarations.filter (·.name == checkedName marked.name) = [d] ∧ d.clientName = first.name

/-- Every selected input is declared once, in the order of the schema. -/
theorem select_declaresInputs (document : Document) (config : Config) :
    DeclaresInputs document config (select document config) where
  distinct := names_select_nodup
  inOrder := by
    refine ⟨(chosen document).map (·.1), ?_, ?_⟩
    · exact ((chosen_sublist document).map _).trans (map_fst_candidatesAmong_sublist document _)
    · rw [select, List.map_map]
      apply List.map_congr_left
      intro c hc
      rw [Function.comp_apply, (name_of_mem_chosen hc).1]
  selected := by
    intro d hd
    obtain ⟨c, hc, rfl⟩ := List.mem_map.mp hd
    obtain ⟨stripped, selected⟩ := name_of_mem_chosen hc
    exact ⟨stripped.symm, selected⟩
  outright := by
    intro input member unmarked selected
    obtain ⟨first, found⟩ : ∃ first, document.input? input.name = some first := by
      rw [← Option.isSome_iff_exists, Document.input?, List.find?_isSome]
      exact ⟨input, member, beq_self_eq_true _⟩
    have same : first.name = input.name := by simpa only [beq_iff_eq] using List.find?_some found
    exact ⟨_, filter_select_eq (mem_chosen_of_input? selected unmarked found), same⟩
  stripped := by
    intro marked member selected absent
    obtain ⟨first, found⟩ : ∃ first,
        document.inputs.find? (checkedName ·.name == checkedName marked.name) = some first := by
      rw [← Option.isSome_iff_exists, List.find?_isSome]
      exact ⟨marked, member, beq_self_eq_true _⟩
    exact ⟨first, _, found, filter_select_eq (mem_chosen_of_stripped selected absent found), rfl⟩

end GraphqlCrud.Inputs
