import GraphqlCrud.Proofs.Inputs.Ownership
/-!
Under which names inputs are declared. Of the inputs that share a declared name the first counts;
one that carries the marker of unchecked inputs gives way to the input that has its name without it.
-/
namespace GraphqlCrud.Inputs

open Schema

/-- The marker of inputs that set foreign keys directly. -/
def uncheckedMarker : String := "Unchecked"

theorem checkedName_eq_self_iff {name : String} :
    checkedName name = name ↔ Text.occurs uncheckedMarker name = false :=
  Text.without_eq_self_iff (by decide)

def candidatesAmong (document : Document) (inputs : List InputType) : List (InputType × String) :=
  (inputs.map fun input => (input, checkedName input.name)).filter fun (input, name) =>
    isSelected document name && !hasTwin document input

theorem candidatesAmong_append (document : Document) (first second : List InputType) :
    candidatesAmong document (first ++ second) =
      candidatesAmong document first ++ candidatesAmong document second := by
  simp [candidatesAmong]

/-- The first candidate of each name. -/
def IsFirst (candidates : List (InputType × String)) (c : InputType × String) : Prop :=
  candidates.find? (·.2 == c.2) = some c

theorem IsFirst.mem {candidates : List (InputType × String)} {c : InputType × String}
    (h : IsFirst candidates c) : c ∈ candidates := List.mem_of_find?_eq_some h

theorem exists_isFirst {candidates : List (InputType × String)} {c : InputType × String}
    (h : c ∈ candidates) : ∃ first, IsFirst candidates first ∧ first.2 = c.2 := by
  have found : (candidates.find? (·.2 == c.2)).isSome = true := by
    rw [List.find?_isSome]
    exact ⟨c, h, beq_self_eq_true _⟩
  obtain ⟨first, hfirst⟩ := Option.isSome_iff_exists.mp found
  have same : first.2 = c.2 := by simpa only [beq_iff_eq] using List.find?_some hfirst
  exact ⟨first, by rw [IsFirst, same, hfirst], same⟩

theorem isFirst_append_singleton {candidates : List (InputType × String)}
    {c new : InputType × String} :
    IsFirst (candidates ++ [new]) c ↔
      IsFirst candidates c ∨ (c = new ∧ ∀ held ∈ candidates, held.2 ≠ new.2) := by
  unfold IsFirst
  rw [List.find?_append]
  cases h : candidates.find? (·.2 == c.2) with
  | none =>
    have absent : ∀ held ∈ candidates, held.2 ≠ c.2 := by simpa using h
    constructor
    · intro found
      obtain ⟨-, rfl⟩ : new.2 = c.2 ∧ new = c := by simpa using found
      exact .inr ⟨rfl, absent⟩
    · rintro (impossible | ⟨rfl, -⟩)
      · cases impossible
      · simp
  | some first =>
    have same : first.2 = c.2 := by simpa only [beq_iff_eq] using List.find?_some h
    constructor
    · exact .inl
    · rintro (found | ⟨rfl, absent⟩)
      · exact found
      · exact absurd same (absent first (List.mem_of_find?_eq_some h))

def hold (document : Document) (held : List (InputType × String)) (input : InputType) :
    List (InputType × String) :=
  if isSelected document (checkedName input.name) && !hasTwin document input &&
      !held.any (·.2 == checkedName input.name)
    then held ++ [(input, checkedName input.name)] else held

theorem chosen_eq (document : Document) :
    chosen document = document.inputs.foldl (hold document) [] := rfl

/-- Held are the first candidates among the inputs met. -/
def Holds (document : Document) (held : List (InputType × String)) (met : List InputType) : Prop :=
  ∀ c, c ∈ held ↔ IsFirst (candidatesAmong document met) c

theorem Holds.step {document : Document} {met : List InputType} {held : List (InputType × String)}
    (h : Holds document held met) (input : InputType) :
    Holds document (hold document held input) (met ++ [input]) := by
  intro c
  -- A name is new among those held exactly when no candidate met before has it.
  have fresh_iff : (held.any (·.2 == checkedName input.name) = false) ↔
      ∀ c ∈ candidatesAmong document met, c.2 ≠ checkedName input.name := by
    simp only [List.any_eq_false, beq_iff_eq]
    constructor
    · intro fresh c hc same
      obtain ⟨first, hfirst, hname⟩ := exists_isFirst hc
      exact fresh first ((h first).mpr hfirst) (hname.trans same)
    · intro fresh c hc
      exact fresh c ((h c).mp hc).mem
  rw [candidatesAmong_append, hold]
  cases eligible : isSelected document (checkedName input.name) && !hasTwin document input with
  | false => simpa [candidatesAmong, eligible] using h c
  | true =>
    have added : candidatesAmong document [input] = [(input, checkedName input.name)] := by
      simp [candidatesAmong, eligible]
    rw [added, isFirst_append_singleton, ← fresh_iff, ← h c]
    cases held.any (·.2 == checkedName input.name) <;> simp

theorem Holds.foldl {document : Document} {met : List InputType}
    {held : List (InputType × String)} (h : Holds document held met) (inputs : List InputType) :
    Holds document (inputs.foldl (hold document) held) (met ++ inputs) := by
  induction inputs generalizing met held with
  | nil => simpa only [List.foldl_nil, List.append_nil] using h
  | cons input inputs ih =>
    simpa only [List.foldl_cons, List.append_assoc, List.singleton_append] using ih (h.step input)

/-- An input is declared when it is the first candidate of its declared name. -/
theorem mem_chosen {document : Document} {c : InputType × String} :
    c ∈ chosen document ↔ IsFirst (candidatesAmong document document.inputs) c := by
  have start : Holds document [] [] := by simp [Holds, IsFirst, candidatesAmong]
  rw [chosen_eq]
  simpa only [List.nil_append] using start.foldl document.inputs c

theorem hasTwin_eq_false_iff {document : Document} {input : InputType} :
    hasTwin document input = false ↔
      checkedName input.name = input.name ∨
        ∀ other ∈ document.inputs, other.name ≠ checkedName input.name := by
  simp [hasTwin, Classical.or_iff_not_imp_left]

/-- A name is declared when it is selected and some input has it without its marker, and that input
has it outright if any does. -/
theorem mem_chosen_names {document : Document} {name : String} :
    name ∈ (chosen document).map (·.2) ↔
      isSelected document name = true ∧ ∃ input ∈ document.inputs,
        checkedName input.name = name ∧
          (input.name = name ∨ ∀ other ∈ document.inputs, other.name ≠ name) := by
  constructor
  · intro h
    obtain ⟨c, hc, rfl⟩ := List.mem_map.mp h
    have candidate := (mem_chosen.mp hc).mem
    simp only [candidatesAmong, List.mem_filter, List.mem_map, Bool.and_eq_true,
      Bool.not_eq_true', hasTwin_eq_false_iff] at candidate
    obtain ⟨⟨input, member, rfl⟩, selected, single⟩ := candidate
    exact ⟨selected, input, member, rfl, single.imp_left Eq.symm⟩
  · rintro ⟨selected, input, member, rfl, single⟩
    have candidate : (input, checkedName input.name) ∈
        candidatesAmong document document.inputs := by
      simp only [candidatesAmong, List.mem_filter, List.mem_map, Bool.and_eq_true,
        Bool.not_eq_true', hasTwin_eq_false_iff]
      exact ⟨⟨input, member, rfl⟩, selected, single.imp_left Eq.symm⟩
    obtain ⟨first, hfirst, same⟩ := exists_isFirst candidate
    exact List.mem_map.mpr ⟨first, mem_chosen.mpr hfirst, same⟩

theorem mem_chosen_names_of_input {document : Document} {input : InputType}
    (member : input ∈ document.inputs) :
    input.name ∈ (chosen document).map (·.2) ↔
      isSelected document input.name = true ∧
        Text.occurs uncheckedMarker input.name = false := by
  rw [mem_chosen_names, ← checkedName_eq_self_iff]
  constructor
  · rintro ⟨selected, other, -, stripped, same | absent⟩
    · exact ⟨selected, by rw [← same, stripped, same]⟩
    · exact absurd rfl (absent input member)
  · rintro ⟨selected, unmarked⟩
    exact ⟨selected, input, member, unmarked, .inl rfl⟩

end GraphqlCrud.Inputs
