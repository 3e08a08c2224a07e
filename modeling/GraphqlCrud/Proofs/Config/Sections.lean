import Mathlib.Data.List.Pairwise
import GraphqlCrud.Proofs.Config.Settings
import GraphqlCrud.Proofs.Toml.Depth
/-!
Reading a section. It obeys its table of options when it takes the documents that fit the table and
no others, and gives every option what stands in its place. One value does so, and a section does so
whose parts do.
-/
namespace GraphqlCrud.Config

open Toml (Value Origin Entries)

/-- A way to read that follows a table of options. -/
structure Obeys {σ : Type} (settings : List (Setting σ)) (read : Setter σ) : Prop where
  inhabited : settings ≠ []
  accepts : ∀ {value start}, value.IsOrdered → IsPlain settings value →
    ((∃ c, read value start = .ok c) ↔ Fits settings value)
  sets : ∀ {value start c}, value.IsOrdered → IsPlain settings value → read value start = .ok c →
    ∀ s ∈ settings, s.Holds value start c

/-! ### One value -/

/-- The table of a single value. -/
def Kind.setting (kind : Kind) : Setting kind.Content := ⟨[], kind, id⟩

theorem Kind.fits_iff {kind : Kind} {value : Value} :
    Fits [kind.setting] value ↔ ∃ content, kind.Means value content := by
  constructor
  · intro fits
    obtain ⟨s, mem, allows⟩ := fits [] value (Value.at?_nil value)
    cases List.mem_singleton.mp mem
    cases allows with
    | onTheWay leads => cases leads
    | inPlace here means => exact ⟨_, means⟩
    | inside below => cases below
  · rintro ⟨content, means⟩ path inner reached
    refine ⟨kind.setting, List.mem_singleton_self _, ?_⟩
    cases path with
    | nil =>
      rw [Value.at?_nil] at reached
      cases reached
      exact .inPlace rfl means
    | cons key path => exact .inside rfl

theorem IsTexts.isWithin {value : Value} {names : List String} (texts : IsTexts value names) :
    value.IsWithin 1 := by
  obtain ⟨isOfTables, rfl⟩ := texts
  refine .array fun item mem => ?_
  obtain ⟨name, -, rfl⟩ := List.mem_map.mp mem
  exact .text name

theorem Kind.isWithin_of_fits {kind : Kind} {value : Value} (fits : Fits [kind.setting] value) :
    value.IsWithin 2 := by
  obtain ⟨content, means⟩ := Kind.fits_iff.mp fits
  cases kind with
  | text => exact means ▸ .text content
  | flag => exact means ▸ .flag content
  | texts => exact (IsTexts.isWithin means).mono (by omega)
  | mapping word =>
    cases content with
    | false => exact means ▸ .flag false
    | true => exact means ▸ .text word
  | mode =>
    cases content with
    | bulk => exact means ▸ .text "bulk"
    | transaction => exact means ▸ .text "transaction"
  | exclusions =>
    obtain ⟨origin, entries, rfl, rows⟩ := means
    clear fits
    refine .table fun entry mem => ?_
    induction rows with
    | nil => cases mem
    | cons row _ ih =>
      rcases List.mem_cons.mp mem with rfl | mem
      · exact row.2.isWithin
      · exact ih mem

theorem Kind.not_table {kind : Kind} {value : Value} (plain : IsPlain [kind.setting] value)
    (isMode : kind = .mode) (origin : Origin) (entries : Entries) :
    value ≠ .table origin entries := by
  have bare := plain.modes _ (List.mem_singleton_self _) isMode origin entries
  simpa [setting] using bare

theorem Kind.obeys (kind : Kind) : Obeys [kind.setting] fun value _ => kind.read value where
  inhabited := List.cons_ne_nil _ _
  accepts := by
    intro value start ordered plain
    simp only [Kind.fits_iff, Kind.read_eq_ok_iff (Kind.not_table plain)]
  sets := by
    intro value start c ordered plain read s mem
    cases List.mem_singleton.mp mem
    simpa [Setting.Holds, setting] using (Kind.read_eq_ok_iff (Kind.not_table plain)).mp read

/-! ### The parts of a section -/

/-- An option of what stands under a key, as an option of the whole. -/
def Setting.below {σ τ : Type} (key : String) (get : σ → τ) (s : Setting τ) : Setting σ :=
  ⟨key :: s.path, s.kind, fun c => s.get (get c)⟩

/-- A part of a section: under its key stands something that sets what the part looks at. -/
structure Part (σ : Type) where
  key : String
  Content : Type
  get : σ → Content
  put : Content → σ → σ
  read : Setter Content
  settings : List (Setting Content)
  get_put : ∀ x c, get (put x c) = x
  obeys : Obeys settings read

/-- Parts under different keys that do not see each other's changes. -/
structure Part.Apart {σ : Type} (p q : Part σ) : Prop where
  keys : p.key ≠ q.key
  get_put_left : ∀ x c, q.get (p.put x c) = q.get c
  get_put_right : ∀ x c, p.get (q.put x c) = p.get c

def Part.toOption {σ : Type} (p : Part σ) : String × Setter σ :=
  (p.key, fun value c => do return p.put (← p.read value (p.get c)) c)

/-- The options of a section with the given parts. -/
def settingsOf {σ : Type} (parts : List (Part σ)) : List (Setting σ) :=
  parts.flatMap fun p => p.settings.map (.below p.key p.get)

section

variable {σ τ : Type} {key : String} {get : σ → τ} {s : Setting τ}

theorem Setting.allows_below_nil {value : Value} :
    (s.below key get).Allows [] value ↔ ∃ origin entries, value = .table origin entries := by
  constructor
  · rintro (leads | ⟨here, -⟩ | below)
    · exact ⟨_, _, rfl⟩
    · cases here
    · cases below
  · rintro ⟨origin, entries, rfl⟩
    exact .onTheWay rfl

theorem Setting.allows_below_cons {k : String} {path : List String} {value : Value} :
    (s.below key get).Allows (k :: path) value ↔ key = k ∧ s.Allows path value := by
  constructor
  · rintro (leads | ⟨here, means⟩ | below)
    · injection leads with same leads
      exact ⟨same, .onTheWay leads⟩
    · injection here with same here
      exact ⟨same.symm, .inPlace here means⟩
    · injection below with same below
      exact ⟨same.symm, .inside below⟩
  · rintro ⟨rfl, leads | ⟨here, means⟩ | below⟩
    · exact .onTheWay (congrArg _ leads)
    · exact .inPlace (congrArg _ here) means
    · exact .inside (congrArg _ below)

theorem Setting.holds_below_table {origin : Origin} {entries : Entries} {start c : σ} :
    (s.below key get).Holds (.table origin entries) start c ↔
      match entries.find? key with
      | some value => s.Holds value (get start) (get c)
      | none => s.get (get c) = s.get (get start) := by
  unfold Setting.Holds
  simp only [below, Value.at?_table]
  cases entries.find? key with
  | none => rfl
  | some value => rfl

end

section

variable {σ : Type} {parts : List (Part σ)}

theorem mem_settingsOf_iff {s : Setting σ} :
    s ∈ settingsOf parts ↔ ∃ p ∈ parts, ∃ t ∈ p.settings, t.below p.key p.get = s := by
  simp only [settingsOf, List.mem_flatMap, List.mem_map]

theorem exists_allows_cons_iff {key : String} {path : List String} {value : Value} :
    (∃ s ∈ settingsOf parts, s.Allows (key :: path) value) ↔
      ∃ p ∈ parts, p.key = key ∧ ∃ t ∈ p.settings, t.Allows path value := by
  constructor
  · rintro ⟨_, mem, allows⟩
    obtain ⟨p, p_mem, t, t_mem, rfl⟩ := mem_settingsOf_iff.mp mem
    obtain ⟨same, allows⟩ := Setting.allows_below_cons.mp allows
    exact ⟨p, p_mem, same, t, t_mem, allows⟩
  · rintro ⟨p, p_mem, same, t, t_mem, allows⟩
    exact ⟨_, mem_settingsOf_iff.mpr ⟨p, p_mem, t, t_mem, rfl⟩,
      Setting.allows_below_cons.mpr ⟨same, allows⟩⟩

theorem settingsOf_ne_nil (nonempty : parts ≠ []) : settingsOf parts ≠ [] := by
  obtain ⟨p, p_mem⟩ := List.exists_mem_of_ne_nil parts nonempty
  obtain ⟨t, t_mem⟩ := List.exists_mem_of_ne_nil _ p.obeys.inhabited
  exact List.ne_nil_of_mem (mem_settingsOf_iff.mpr ⟨p, p_mem, t, t_mem, rfl⟩)

instance : Std.Symm (@Part.Apart σ) where
  symm _ _ apart := ⟨apart.keys.symm, apart.get_put_right, apart.get_put_left⟩

theorem apart_of_ne (apart : parts.Pairwise Part.Apart) {p q : Part σ} (p_mem : p ∈ parts)
    (q_mem : q ∈ parts) (different : p.key ≠ q.key) : p.Apart q :=
  apart.forall p_mem q_mem fun same => different (same ▸ rfl)

theorem eq_of_key_eq (apart : parts.Pairwise Part.Apart) {p q : Part σ} (p_mem : p ∈ parts)
    (q_mem : q ∈ parts) (same : p.key = q.key) : p = q := by
  by_contra different
  exact (apart.forall p_mem q_mem different).keys same

/-! ### What fits a section -/

theorem fits_table_iff (nonempty : parts ≠ []) (apart : parts.Pairwise Part.Apart) {origin : Origin}
    {entries : Entries} (ordered : entries.IsOrdered) :
    Fits (settingsOf parts) (.table origin entries) ↔
      ∀ entry ∈ entries, ∃ p ∈ parts, p.key = entry.1 ∧ Fits p.settings entry.2 := by
  constructor
  · intro fits entry mem
    have found := ordered.find?_of_mem mem
    have below (path : List String) (value : Value) (reached : entry.2.at? path = some value) :
        ∃ p ∈ parts, p.key = entry.1 ∧ ∃ t ∈ p.settings, t.Allows path value :=
      exists_allows_cons_iff.mp (fits (entry.1 :: path) value (by simpa [found] using reached))
    obtain ⟨p, p_mem, same, -⟩ := below [] entry.2 (Value.at?_nil _)
    refine ⟨p, p_mem, same, fun path value reached => ?_⟩
    obtain ⟨q, q_mem, q_same, allowed⟩ := below path value reached
    cases eq_of_key_eq apart p_mem q_mem (same.trans q_same.symm)
    exact allowed
  · intro each path value reached
    cases path with
    | nil =>
      rw [Value.at?_nil] at reached
      cases reached
      obtain ⟨s, mem⟩ := List.exists_mem_of_ne_nil _ (settingsOf_ne_nil nonempty)
      obtain ⟨p, -, t, -, rfl⟩ := mem_settingsOf_iff.mp mem
      exact ⟨_, mem, Setting.allows_below_nil.mpr ⟨_, _, rfl⟩⟩
    | cons key path =>
      obtain ⟨child, found, reached⟩ := Option.bind_eq_some_iff.mp reached
      obtain ⟨p, p_mem, same, fits⟩ := each _ (Entries.mem_of_find? found)
      exact exists_allows_cons_iff.mpr ⟨p, p_mem, same, fits path value reached⟩

theorem not_fits_of_not_table {value : Value}
    (notTable : ∀ origin entries, value ≠ .table origin entries) :
    ¬ Fits (settingsOf parts) value := by
  intro fits
  obtain ⟨s, mem, allows⟩ := fits [] value (Value.at?_nil value)
  obtain ⟨p, -, t, -, rfl⟩ := mem_settingsOf_iff.mp mem
  obtain ⟨origin, entries, same⟩ := Setting.allows_below_nil.mp allows
  exact notTable origin entries same

/-- What fits the part nests within a depth. -/
def Part.IsShallow (depth : Nat) (p : Part σ) : Prop :=
  ∀ value : Value, value.IsOrdered → Fits p.settings value → value.IsWithin depth

/-- What fits a section nests one level deeper than what fits its parts. -/
theorem isWithin_of_fits_section (nonempty : parts ≠ []) (apart : parts.Pairwise Part.Apart)
    {depth : Nat} (shallow : ∀ p ∈ parts, p.IsShallow depth) {value : Value}
    (ordered : value.IsOrdered) (fits : Fits (settingsOf parts) value) :
    value.IsWithin (depth + 1) := by
  cases value with
  | table origin entries =>
    have entries_ordered := Value.isOrdered_table_iff.mp ordered
    refine .table fun entry mem => ?_
    obtain ⟨p, p_mem, -, entry_fits⟩ :=
      (fits_table_iff nonempty apart entries_ordered).mp fits entry mem
    exact shallow p p_mem entry.2 (entries_ordered.2 entry mem) entry_fits
  | _ => exact absurd fits (not_fits_of_not_table fun _ _ same => by cases same)

theorem IsPlain.not_array (nonempty : parts ≠ []) {value : Value}
    (plain : IsPlain (settingsOf parts) value) (items : List Value) (isOfTables : Bool) :
    value ≠ .array items isOfTables := by
  obtain ⟨s, mem⟩ := List.exists_mem_of_ne_nil _ (settingsOf_ne_nil nonempty)
  obtain ⟨p, -, t, -, rfl⟩ := mem_settingsOf_iff.mp mem
  have bare := plain.sections _ mem [] p.key t.path rfl items isOfTables
  simpa using bare

theorem IsPlain.below {origin : Origin} {entries : Entries}
    (plain : IsPlain (settingsOf parts) (.table origin entries)) {p : Part σ} (p_mem : p ∈ parts)
    {value : Value} (found : entries.find? p.key = some value) : IsPlain p.settings value where
  sections := by
    intro t t_mem path key rest leads items isOfTables reached
    have mem := mem_settingsOf_iff.mpr ⟨p, p_mem, t, t_mem, rfl⟩
    refine plain.sections _ mem (p.key :: path) key rest (congrArg _ leads) items isOfTables ?_
    simpa [found] using reached
  modes := by
    intro t t_mem isMode origin' entries' reached
    have mem := mem_settingsOf_iff.mpr ⟨p, p_mem, t, t_mem, rfl⟩
    refine plain.modes _ mem isMode origin' entries' ?_
    simpa [Setting.below, found] using reached

/-! ### Reading a section -/

/-- Reads one entry of a section. -/
def Options.set (options : Options σ) (c : σ) (entry : String × Value) : Except Refusal σ :=
  match options.lookup entry.1 with
  | some set => set entry.2 c
  | none => unfit

theorem Options.read_table (options : Options σ) (origin : Origin) (entries : Entries) (start : σ) :
    options.read (.table origin entries) start = entries.foldlM options.set start := rfl

def optionsOf (parts : List (Part σ)) : Options σ := parts.map Part.toOption

theorem lookup_optionsOf (apart : parts.Pairwise Part.Apart) {p : Part σ} (p_mem : p ∈ parts) :
    (optionsOf parts).lookup p.key = some p.toOption.2 := by
  obtain ⟨before, after, rfl⟩ := List.append_of_mem p_mem
  refine List.lookup_eq_some_iff.mpr
    ⟨before.map Part.toOption, after.map Part.toOption, by simp [optionsOf, Part.toOption], ?_⟩
  intro option mem
  obtain ⟨q, q_mem, rfl⟩ := List.mem_map.mp mem
  exact bne_iff_ne.mpr
    ((List.pairwise_append.mp apart).2.2 q q_mem p List.mem_cons_self).keys.symm

theorem lookup_optionsOf_none {key : String} (unknown : ∀ p ∈ parts, p.key ≠ key) :
    (optionsOf parts).lookup key = none := by
  refine List.lookup_eq_none_iff.mpr fun option mem => ?_
  obtain ⟨p, p_mem, rfl⟩ := List.mem_map.mp mem
  exact bne_iff_ne.mpr (unknown p p_mem).symm

/-- An entry is read by the part that has its key, and changes what that part looks at. -/
theorem set_eq_ok_iff (apart : parts.Pairwise Part.Apart) {c c' : σ} {entry : String × Value} :
    (optionsOf parts).set c entry = .ok c' ↔ ∃ p ∈ parts, p.key = entry.1 ∧
      ∃ x, p.read entry.2 (p.get c) = .ok x ∧ p.put x c = c' := by
  by_cases known : ∃ p ∈ parts, p.key = entry.1
  · obtain ⟨p, p_mem, same⟩ := known
    have set_eq : (optionsOf parts).set c entry = p.toOption.2 entry.2 c := by
      rw [Options.set, ← same, lookup_optionsOf apart p_mem]
    simp only [set_eq, Part.toOption, bind_eq_ok_iff]
    constructor
    · rintro ⟨x, read, put⟩
      cases put
      exact ⟨p, p_mem, same, x, read, rfl⟩
    · rintro ⟨q, q_mem, q_same, x, read, rfl⟩
      cases eq_of_key_eq apart p_mem q_mem (same.trans q_same.symm)
      exact ⟨x, read, rfl⟩
  · have refused : (optionsOf parts).set c entry = unfit := by
      rw [Options.set, lookup_optionsOf_none fun p p_mem same => known ⟨p, p_mem, same⟩]
    rw [refused]
    constructor
    · intro accepted
      cases accepted
    · rintro ⟨p, p_mem, same, -⟩
      exact absurd ⟨p, p_mem, same⟩ known

theorem read_of_set (apart : parts.Pairwise Part.Apart) {c c' : σ} {entry : String × Value}
    (set : (optionsOf parts).set c entry = .ok c') {p : Part σ} (p_mem : p ∈ parts)
    (same : p.key = entry.1) : p.read entry.2 (p.get c) = .ok (p.get c') := by
  obtain ⟨q, q_mem, q_same, x, read, rfl⟩ := (set_eq_ok_iff apart).mp set
  cases eq_of_key_eq apart p_mem q_mem (same.trans q_same.symm)
  rwa [p.get_put]

theorem get_of_set (apart : parts.Pairwise Part.Apart) {c c' : σ} {entry : String × Value}
    (set : (optionsOf parts).set c entry = .ok c') {p : Part σ} (p_mem : p ∈ parts)
    (different : p.key ≠ entry.1) : p.get c' = p.get c := by
  obtain ⟨q, q_mem, q_same, x, read, rfl⟩ := (set_eq_ok_iff apart).mp set
  exact (apart_of_ne apart p_mem q_mem (q_same ▸ different)).get_put_right x c

theorem get_of_run_absent (apart : parts.Pairwise Part.Apart) {entries : Entries} {start c : σ}
    (run : entries.foldlM (optionsOf parts).set start = .ok c) {p : Part σ} (p_mem : p ∈ parts)
    (absent : ∀ entry ∈ entries, p.key ≠ entry.1) : p.get c = p.get start := by
  induction entries generalizing start with
  | nil =>
    cases run
    rfl
  | cons entry entries ih =>
    rw [List.foldlM_cons] at run
    obtain ⟨next, set, rest⟩ := bind_eq_ok_iff.mp run
    obtain ⟨here, later⟩ := List.forall_mem_cons.mp absent
    rw [ih rest later, get_of_set apart set p_mem here]

theorem read_of_run (apart : parts.Pairwise Part.Apart) {entries : Entries} {start c : σ}
    (distinct : (entries.map (·.1)).Nodup)
    (run : entries.foldlM (optionsOf parts).set start = .ok c)
    {p : Part σ} (p_mem : p ∈ parts) {value : Value} (mem : (p.key, value) ∈ entries) :
    p.read value (p.get start) = .ok (p.get c) := by
  induction entries generalizing start with
  | nil => cases mem
  | cons entry entries ih =>
    rw [List.foldlM_cons] at run
    obtain ⟨next, set, rest⟩ := bind_eq_ok_iff.mp run
    obtain ⟨fresh, distinct⟩ := List.nodup_cons.mp distinct
    rcases List.mem_cons.mp mem with rfl | mem
    · have untouched : p.get c = p.get next :=
        get_of_run_absent apart rest p_mem fun later later_mem same =>
          fresh (List.mem_map.mpr ⟨later, later_mem, same.symm⟩)
      rw [untouched]
      exact read_of_set apart set p_mem rfl
    · have different : p.key ≠ entry.1 := fun same =>
        fresh (List.mem_map.mpr ⟨_, mem, same⟩)
      rw [← get_of_set apart set p_mem different]
      exact ih distinct rest mem

theorem exists_run_iff (apart : parts.Pairwise Part.Apart) {entries : Entries}
    (ready : ∀ entry ∈ entries, ∀ p ∈ parts, p.key = entry.1 →
      entry.2.IsOrdered ∧ IsPlain p.settings entry.2) (start : σ) :
    (∃ c, entries.foldlM (optionsOf parts).set start = .ok c) ↔
      ∀ entry ∈ entries, ∃ p ∈ parts, p.key = entry.1 ∧ Fits p.settings entry.2 := by
  induction entries generalizing start with
  | nil => exact ⟨fun _ _ impossible => absurd impossible List.not_mem_nil, fun _ => ⟨start, rfl⟩⟩
  | cons entry entries ih =>
    obtain ⟨ready_here, ready_later⟩ := List.forall_mem_cons.mp ready
    simp only [List.foldlM_cons, bind_eq_ok_iff, List.forall_mem_cons]
    constructor
    · rintro ⟨c, next, set, rest⟩
      obtain ⟨p, p_mem, same, x, read, -⟩ := (set_eq_ok_iff apart).mp set
      obtain ⟨ordered, plain⟩ := ready_here p p_mem same
      exact ⟨⟨p, p_mem, same, (p.obeys.accepts ordered plain).mp ⟨x, read⟩⟩,
        (ih ready_later next).mp ⟨c, rest⟩⟩
    · rintro ⟨⟨p, p_mem, same, fits⟩, later⟩
      obtain ⟨ordered, plain⟩ := ready_here p p_mem same
      obtain ⟨x, read⟩ : ∃ x, p.read entry.2 (p.get start) = .ok x :=
        (p.obeys.accepts ordered plain).mpr fits
      obtain ⟨c, rest⟩ := (ih ready_later (p.put x start)).mpr later
      exact ⟨c, p.put x start, (set_eq_ok_iff apart).mpr ⟨p, p_mem, same, x, read, rfl⟩, rest⟩

/-- A section obeys the table of its options when each of its parts does. -/
theorem obeys_section (nonempty : parts ≠ []) (apart : parts.Pairwise Part.Apart) :
    Obeys (settingsOf parts) (optionsOf parts).read where
  inhabited := settingsOf_ne_nil nonempty
  accepts := by
    intro value start ordered plain
    cases value with
    | table origin entries =>
      have entries_ordered := Value.isOrdered_table_iff.mp ordered
      rw [fits_table_iff nonempty apart entries_ordered]
      refine exists_run_iff apart (fun entry mem p p_mem same => ?_) start
      have found : Entries.find? entries p.key = some entry.2 := by
        rw [same]
        exact entries_ordered.find?_of_mem mem
      exact ⟨entries_ordered.of_find? found, plain.below p_mem found⟩
    | array items isOfTables => exact absurd rfl (plain.not_array nonempty items isOfTables)
    | _ =>
      refine iff_of_false ?_ (not_fits_of_not_table fun _ _ same => by cases same)
      rintro ⟨c, read⟩
      cases read
  sets := by
    intro value start c ordered plain read s mem
    obtain ⟨p, p_mem, t, t_mem, rfl⟩ := mem_settingsOf_iff.mp mem
    cases value with
    | table origin entries =>
      have entries_ordered := Value.isOrdered_table_iff.mp ordered
      rw [Options.read_table] at read
      rw [Setting.holds_below_table]
      cases found : Entries.find? entries p.key with
      | none =>
        refine congrArg t.get (get_of_run_absent apart read p_mem fun entry mem same => ?_)
        have present := entries_ordered.find?_of_mem mem
        rw [← same, found] at present
        cases present
      | some value =>
        have part_read := read_of_run apart entries_ordered.nodup_keys read p_mem
          (Entries.mem_of_find? found)
        have value_ordered := entries_ordered.of_find? found
        exact p.obeys.sets value_ordered (plain.below p_mem found) part_read t t_mem
    | array items isOfTables => exact absurd rfl (plain.not_array nonempty items isOfTables)
    | _ => cases read

end

end GraphqlCrud.Config
