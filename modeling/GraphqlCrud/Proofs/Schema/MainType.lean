import Mathlib.Data.Bool.Basic
import Mathlib.Data.Prod.Lex
import GraphqlCrud.Proofs.Schema.Reference
/-!
Which of the types that a field accepts is its main type: the first of those that are preferred to all
others, where null is left aside as long as there is anything else. So the choice hangs on the order
of the types only between those that are equally preferred, and never on where null stands.
-/
namespace GraphqlCrud.Schema

section

variable {α : Type} {key : α → Nat} {items : List α} {x : α}

theorem leastBy_eq_none_iff : leastBy key items = none ↔ items = [] := by
  cases items with
  | nil => simp [leastBy]
  | cons first rest =>
    rw [leastBy]
    split
    · simp
    · split <;> simp

/-- What comes before the first item with the least key has a greater one. -/
theorem leastBy_eq_some_iff : leastBy key items = some x ↔ ∃ before after,
    items = before ++ x :: after ∧ (∀ y ∈ before, key x < key y) ∧ ∀ y ∈ after, key x ≤ key y := by
  induction items generalizing x with
  | nil => simp [leastBy]
  | cons first rest ih =>
    constructor
    · intro h
      rw [leastBy] at h
      split at h
      · next none =>
        obtain rfl := leastBy_eq_none_iff.mp none
        obtain rfl := Option.some.inj h
        exact ⟨[], [], by simp⟩
      · next y least =>
        obtain ⟨before, after, rfl, greater, notLess⟩ := ih.mp least
        split at h
        · next first_le =>
          obtain rfl := Option.some.inj h
          refine ⟨[], _, rfl, by simp, fun z hz => ?_⟩
          rcases List.mem_append.mp hz with hz | hz
          · exact first_le.trans (greater z hz).le
          · rcases List.mem_cons.mp hz with rfl | hz
            · exact first_le
            · exact first_le.trans (notLess z hz)
        · next first_gt =>
          obtain rfl := Option.some.inj h
          exact ⟨first :: before, after, rfl,
            List.forall_mem_cons.mpr ⟨Nat.lt_of_not_le first_gt, greater⟩, notLess⟩
    · rintro ⟨before, after, split, greater, notLess⟩
      cases before with
      | nil =>
        obtain ⟨rfl, rfl⟩ := List.cons.inj split
        rw [leastBy]
        split
        · rfl
        · next y least => rw [if_pos (notLess y (leastBy_mem least))]
      | cons b before =>
        obtain ⟨rfl, rfl⟩ := List.cons.inj split
        obtain ⟨less, greater⟩ := List.forall_mem_cons.mp greater
        rw [leastBy, ih.mpr ⟨before, after, rfl, greater, notLess⟩]
        exact if_neg (Nat.not_le_of_lt less)

end

namespace TypeRef

/-- Types stand in the order of their locations, and at one location lists before single values. -/
def standing (t : TypeRef) : Nat ×ₗ Bool := toLex (t.location.rank, !t.isList)

theorem preference_lt_iff {t u : TypeRef} :
    t.preference < u.preference ↔ t.standing < u.standing := by
  rw [standing, standing, Prod.Lex.toLex_lt_toLex, preference, preference]
  cases t.isList <;> cases u.isList <;> simp [Bool.lt_iff] <;> omega

theorem preference_le_iff {t u : TypeRef} :
    t.preference ≤ u.preference ↔ t.standing ≤ u.standing := by
  rw [← Nat.not_lt, preference_lt_iff, not_lt]

end TypeRef

/-- A field accepts something other than null. -/
def InputField.AcceptsValue (f : InputField) : Prop := ∃ t ∈ f.accepts, t.isNull = false

/-- The type is the first of the highest ones among the accepted types that are not null. -/
structure InputField.IsMain (f : InputField) (t : TypeRef) : Prop where
  value : t.isNull = false
  first : ∃ before after, f.accepts = before ++ t :: after ∧
    (∀ u ∈ before, u.isNull = false → t.standing < u.standing) ∧
    ∀ u ∈ after, u.isNull = false → t.standing ≤ u.standing

namespace InputField

variable {f g : InputField} {t u : TypeRef}

/-- The types that a field accepts besides null. -/
def values (f : InputField) : List TypeRef := f.accepts.filter fun t => !t.isNull

theorem IsMain.mem (h : f.IsMain t) : t ∈ f.accepts := by
  obtain ⟨before, after, split, -⟩ := h.first
  rw [split]
  exact List.mem_append_right before List.mem_cons_self

/-- None of the accepted types that are not null stands higher. -/
theorem IsMain.standing_le (h : f.IsMain t) (member : u ∈ f.accepts) (value : u.isNull = false) :
    t.standing ≤ u.standing := by
  obtain ⟨before, after, split, above, notBelow⟩ := h.first
  rw [split] at member
  rcases List.mem_append.mp member with hu | hu
  · exact (above u hu value).le
  · rcases List.mem_cons.mp hu with rfl | hu
    · exact le_rfl
    · exact notBelow u hu value

theorem leastBy_values_iff : leastBy TypeRef.preference f.values = some t ↔ f.IsMain t := by
  rw [leastBy_eq_some_iff]
  simp only [TypeRef.preference_lt_iff, TypeRef.preference_le_iff]
  constructor
  · rintro ⟨front, rest, split, above, notBelow⟩
    obtain ⟨before, tail, whole, rfl, kept⟩ := List.filter_eq_append_iff.mp split
    obtain ⟨nulls, after, rfl, dropped, value, rfl⟩ := List.filter_eq_cons_iff.mp kept
    refine ⟨by simpa using value, before ++ nulls, after, by simp [whole], ?_, ?_⟩
    · intro u hu filled
      rcases List.mem_append.mp hu with hu | hu
      · exact above u (List.mem_filter.mpr ⟨hu, by simp [filled]⟩)
      · exact absurd (by simp [filled]) (dropped u hu)
    · intro u hu filled
      exact notBelow u (List.mem_filter.mpr ⟨hu, by simp [filled]⟩)
  · rintro ⟨value, before, after, split, above, notBelow⟩
    refine ⟨_, _, by rw [values, split, List.filter_append, List.filter_cons_of_pos (by simp [value])],
      ?_, ?_⟩
    · intro u hu
      obtain ⟨hu, filled⟩ := List.mem_filter.mp hu
      exact above u hu (by simpa using filled)
    · intro u hu
      obtain ⟨hu, filled⟩ := List.mem_filter.mp hu
      exact notBelow u hu (by simpa using filled)

theorem values_ne_nil_iff : f.values ≠ [] ↔ f.AcceptsValue := by
  rw [values, Ne, List.filter_eq_nil_iff, AcceptsValue]
  simp

/-- With a choice among values, null is no matter. -/
theorem mainType?_eq_leastBy (h : f.AcceptsValue) :
    f.mainType? = leastBy TypeRef.preference f.values := by
  have some : leastBy TypeRef.preference f.values ≠ none :=
    leastBy_eq_none_iff.not.mpr (values_ne_nil_iff.mpr h)
  rw [mainType?, ← values]
  split
  · next least => exact least.symm
  · next none => exact absurd none some

theorem mainType?_eq_some_iff (h : f.AcceptsValue) : f.mainType? = some t ↔ f.IsMain t := by
  rw [mainType?_eq_leastBy h, leastBy_values_iff]

theorem mainType?_of_nulls (h : ∀ t ∈ f.accepts, t.isNull = true) :
    f.mainType? = f.accepts.head? := by
  have none : f.accepts.filter (fun t => !t.isNull) = [] :=
    List.filter_eq_nil_iff.mpr fun t ht => by simp [h t ht]
  rw [mainType?, none, leastBy]

theorem exists_mainType? (h : f.accepts ≠ []) : ∃ t ∈ f.accepts, f.mainType? = some t := by
  obtain ⟨t, chosen⟩ : ∃ t, f.mainType? = some t := by
    rw [mainType?]
    split
    · exact ⟨_, rfl⟩
    · exact ⟨f.accepts.head h, List.head?_eq_some_head h⟩
  exact ⟨t, mem_of_mainType? chosen, chosen⟩

/-- How the main type of a field depends on what the field accepts. -/
structure ChoosesFirst (f : InputField) : Prop where
  accepted : f.accepts ≠ [] → ∃ t ∈ f.accepts, f.mainType? = some t
  main : f.AcceptsValue → ∀ t, f.mainType? = some t ↔ f.IsMain t
  nulls : (∀ t ∈ f.accepts, t.isNull = true) → f.mainType? = f.accepts.head?
  /-- In any order of the types, the main one has the same rank and is a list or not as before. -/
  reordered : f.AcceptsValue → ∀ g : InputField, g.accepts.Perm f.accepts →
    ∃ t u, f.mainType? = some t ∧ g.mainType? = some u ∧
      u.location.rank = t.location.rank ∧ u.isList = t.isList
  /-- With more nulls or fewer, anywhere, the main type is the same. -/
  renulled : f.AcceptsValue → ∀ g : InputField, g.values = f.values → g.mainType? = f.mainType?

theorem mainType?_choosesFirst (f : InputField) : f.ChoosesFirst := by
  refine { accepted := exists_mainType?, main := fun h t => mainType?_eq_some_iff h,
           nulls := mainType?_of_nulls, reordered := ?_, renulled := ?_ }
  · intro h g perm
    have h' : g.AcceptsValue := by
      obtain ⟨t, ht, value⟩ := h
      exact ⟨t, perm.mem_iff.mpr ht, value⟩
    obtain ⟨t, -, chosen⟩ := exists_mainType? (List.ne_nil_of_mem h.choose_spec.1)
    obtain ⟨u, -, chosen'⟩ := exists_mainType? (List.ne_nil_of_mem h'.choose_spec.1)
    have main := (mainType?_eq_some_iff h).mp chosen
    have main' := (mainType?_eq_some_iff h').mp chosen'
    have same : u.standing = t.standing :=
      le_antisymm (main'.standing_le (perm.mem_iff.mpr main.mem) main.value)
        (main.standing_le (perm.mem_iff.mp main'.mem) main'.value)
    obtain ⟨rank, single⟩ := Prod.mk.inj (toLex.injective same)
    exact ⟨t, u, chosen, chosen', rank, Bool.not_inj single⟩
  · intro h g same
    have h' : g.AcceptsValue := by
      rw [← values_ne_nil_iff, same, values_ne_nil_iff]
      exact h
    rw [mainType?_eq_leastBy h, mainType?_eq_leastBy h', same]

/-- A field that takes two inputs, an enum, or nothing. -/
def roleFilter : InputField where
  name := "role"
  accepts := [
    { name := "Null", location := .scalar },
    { name := "Role", location := .enum, isList := true },
    { name := "EnumRoleFilter", location := .input },
    { name := "NestedEnumRoleFilter", location := .input }]

theorem roleFilter_choosesFirst :
    roleFilter.AcceptsValue ∧
      roleFilter.IsMain { name := "EnumRoleFilter", location := .input } ∧
      (∃ t u, roleFilter.mainType? = some t ∧
        InputField.mainType? { roleFilter with accepts := roleFilter.accepts.reverse } = some u ∧
        u.location.rank = t.location.rank ∧ u.isList = t.isList) ∧
      InputField.mainType? { roleFilter with accepts := roleFilter.values } =
        roleFilter.mainType? := by
  have value : roleFilter.AcceptsValue :=
    ⟨{ name := "EnumRoleFilter", location := .input }, by decide, by decide⟩
  have chooses := mainType?_choosesFirst roleFilter
  have chosen : roleFilter.mainType? = some { name := "EnumRoleFilter", location := .input } := by
    decide
  exact ⟨value, (chooses.main value _).mp chosen,
    chooses.reordered value _ (List.reverse_perm _),
    chooses.renulled value { roleFilter with accepts := roleFilter.values } (by decide)⟩

/-- In another order, another of the two inputs is chosen. -/
example : InputField.mainType? { roleFilter with accepts := roleFilter.accepts.reverse } =
    some { name := "NestedEnumRoleFilter", location := .input } := by decide

end InputField
end GraphqlCrud.Schema
