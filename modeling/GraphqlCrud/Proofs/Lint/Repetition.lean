import Mathlib.Data.List.Induction
import GraphqlCrud.Lint.DuplicateModel
/-!
Which repetitions of a name are errors. A name is compared with the first one of its lowercase
form, so a repetition goes unnoticed exactly where another spelling of the form came first.
-/
namespace GraphqlCrud.Lint

/-- The first of the names that have the lowercase form. -/
def leader? (names : List String) (form : String) : Option String :=
  names.find? fun name => Text.lowercase name == form

theorem leader?_append_singleton (names : List String) (name form : String) :
    leader? (names ++ [name]) form =
      (leader? names form).or (if Text.lowercase name = form then some name else none) := by
  unfold leader?
  rw [List.find?_append]
  by_cases h : Text.lowercase name = form <;> simp [h]

theorem lowercase_of_leader? {names : List String} {form leader : String}
    (h : leader? names form = some leader) : Text.lowercase leader = form := by
  simpa only [beq_iff_eq] using List.find?_some h

theorem mem_of_leader? {names : List String} {form leader : String}
    (h : leader? names form = some leader) : leader ∈ names := List.mem_of_find?_eq_some h

/-- What `collisionsAfter` keeps of the names before is the leader of each form among them. -/
def Remembers (seen : List (String × String)) (before : List String) : Prop :=
  ∀ form, seen.lookup form = leader? before form

theorem Remembers.nil : Remembers [] [] := fun _ => rfl

theorem Remembers.repeated {seen : List (String × String)} {before : List String} {name : String}
    (h : Remembers seen before) (known : (seen.lookup (Text.lowercase name)).isSome) :
    Remembers seen (before ++ [name]) := by
  intro form
  rw [leader?_append_singleton, h form]
  split
  · next same =>
    subst same
    rw [h] at known
    obtain ⟨leader, hl⟩ := Option.isSome_iff_exists.mp known
    rw [hl]
    rfl
  · exact Option.or_none.symm

theorem Remembers.fresh {seen : List (String × String)} {before : List String} {name : String}
    (h : Remembers seen before) (unknown : seen.lookup (Text.lowercase name) = none) :
    Remembers ((Text.lowercase name, name) :: seen) (before ++ [name]) := by
  intro form
  rw [leader?_append_singleton, List.lookup_cons]
  by_cases same : Text.lowercase name = form
  · subst same
    rw [← h, unknown]
    simp
  · have other : (form == Text.lowercase name) = false := by
      simpa only [beq_eq_false_iff_ne] using Ne.symm same
    simp only [other, if_neg same, Option.or_none]
    exact h form

theorem mem_collisionsAfter {seen : List (String × String)} {before names : List String}
    (h : Remembers seen before) (c : Collision) :
    c ∈ collisionsAfter seen names ↔
      ∃ passed rest, names = passed ++ c.model :: rest ∧
        leader? (before ++ passed) (Text.lowercase c.model) = some c.earlier := by
  -- Both `seen` and `before` grow with each name, and stay related by `Remembers`.
  induction names generalizing seen before with
  | nil => simp [collisionsAfter]
  | cons name names ih =>
    -- The name itself is met first; every later one has it among the names before.
    have later (seen') (h' : Remembers seen' (before ++ [name])) :
        c ∈ collisionsAfter seen' names ↔
          ∃ passed rest, names = passed ++ c.model :: rest ∧
            leader? (before ++ name :: passed) (Text.lowercase c.model) = some c.earlier := by
      simpa only [List.append_assoc, List.singleton_append] using ih h'
    have split : (∃ passed rest, name :: names = passed ++ c.model :: rest ∧
          leader? (before ++ passed) (Text.lowercase c.model) = some c.earlier) ↔
        (name = c.model ∧ leader? before (Text.lowercase name) = some c.earlier) ∨
          ∃ passed rest, names = passed ++ c.model :: rest ∧
            leader? (before ++ name :: passed) (Text.lowercase c.model) = some c.earlier := by
      constructor
      · rintro ⟨passed, rest, heq, hl⟩
        cases passed with
        | nil =>
          obtain ⟨rfl, rfl⟩ := List.cons.inj heq
          exact .inl ⟨rfl, by simpa only [List.append_nil] using hl⟩
        | cons first passed =>
          obtain ⟨rfl, rfl⟩ := List.cons.inj heq
          exact .inr ⟨passed, rest, rfl, hl⟩
      · rintro (⟨rfl, hl⟩ | ⟨passed, rest, rfl, hl⟩)
        · exact ⟨[], names, rfl, by simpa only [List.append_nil] using hl⟩
        · exact ⟨name :: passed, rest, rfl, hl⟩
    rw [split]
    cases found : seen.lookup (Text.lowercase name) with
    | none =>
      have none_before : leader? before (Text.lowercase name) = none := by rw [← h, found]
      simp only [collisionsAfter, found]
      rw [later _ (h.fresh found), none_before]
      simp
    | some earlier =>
      have known : (seen.lookup (Text.lowercase name)).isSome := by rw [found]; rfl
      simp only [collisionsAfter, found, List.mem_cons]
      rw [later _ (h.repeated known), ← h, found]
      cases c
      simp only [Collision.mk.injEq, Option.some.injEq]
      exact or_congr_left (and_congr eq_comm eq_comm)

theorem mem_collisions {names : List String} {c : Collision} :
    c ∈ collisions names ↔ ∃ before after, names = before ++ c.model :: after ∧
      leader? before (Text.lowercase c.model) = some c.earlier := by
  have found : c ∈ collisionsAfter [] names ↔ _ := mem_collisionsAfter Remembers.nil c
  simpa only [collisions, List.nil_append] using found

/-- Another spelling of the name stands among the names before it. -/
def IsHidden (before : List String) (name : String) : Prop :=
  ∃ other ∈ before, other ≠ name ∧ Text.lowercase other = Text.lowercase name

/-- Wherever a name comes twice, another spelling of it came before. -/
def RepeatsAreHidden (names : List String) : Prop :=
  ∀ before name between after, names = before ++ name :: (between ++ name :: after) →
    IsHidden before name

/-- A repetition is found exactly when no other spelling of the name hides it. -/
theorem repeatsAreHidden_iff (names : List String) :
    RepeatsAreHidden names ↔ ∀ c ∈ collisions names, c.earlier ≠ c.model := by
  constructor
  · intro hidden c hc same
    obtain ⟨before, after, rfl, hl⟩ := mem_collisions.mp hc
    rw [same] at hl
    obtain ⟨_, front, between, rfl, first⟩ := List.find?_eq_some_iff_append.mp hl
    obtain ⟨other, mem, -, form⟩ := hidden front c.model between after (by simp)
    simpa [form] using first other mem
  · rintro noError before name between after rfl
    -- The second occurrence is compared with the first, unless the form has a leader before it.
    cases hl : leader? before (Text.lowercase name) with
    | none =>
      have leads : leader? (before ++ name :: between) (Text.lowercase name) = some name := by
        unfold leader? at hl ⊢
        rw [List.find?_append, hl]
        simp
      have hc : ⟨name, name⟩ ∈ collisions (before ++ name :: (between ++ name :: after)) :=
        mem_collisions.mpr ⟨before ++ name :: between, after, by simp, leads⟩
      exact absurd rfl (noError _ hc)
    | some leader =>
      refine ⟨leader, mem_of_leader? hl, ?_, lowercase_of_leader? hl⟩
      have hc : ⟨name, leader⟩ ∈ collisions (before ++ name :: (between ++ name :: after)) :=
        mem_collisions.mpr ⟨before, between ++ name :: after, rfl, hl⟩
      exact noError _ hc

/-- Names without collisions are all different, whatever their letter case. -/
theorem nodup_of_collisions_eq_nil {names : List String} (h : collisions names = []) :
    names.Nodup := by
  have fresh : ∀ before name after, names = before ++ name :: after → name ∉ before := by
    intro before name after split member
    obtain ⟨leader, hl⟩ : ∃ leader, leader? before (Text.lowercase name) = some leader :=
      Option.isSome_iff_exists.mp (List.find?_isSome.mpr ⟨name, member, beq_self_eq_true _⟩)
    have hc : ⟨name, leader⟩ ∈ collisions names := mem_collisions.mpr ⟨before, after, split, hl⟩
    rw [h] at hc
    cases hc
  clear h
  induction names using List.reverseRecOn with
  | nil => exact List.nodup_nil
  | append_singleton names name ih =>
    have earlier : names.Nodup := by
      apply ih
      rintro before other after rfl
      exact fresh before other (after ++ [name]) (by simp)
    rw [(List.perm_append_singleton name names).nodup_iff, List.nodup_cons]
    exact ⟨fresh names name [] rfl, earlier⟩

end GraphqlCrud.Lint
