import Mathlib.Data.List.Nodup
import GraphqlCrud.Json.Shape
import GraphqlCrud.Proofs.Json.Reading
/-!
Forms of JSON values, as data: what is checked of a value, and the normal form of a value, in which
nothing is left of what a form does not ask for.
-/
namespace GraphqlCrud.Json

/-- A part of a record: its key, what it holds when it is absent, and its form. A part that holds
nothing then has to be there. -/
structure FormPart (F : Type) where
  key : String
  default? : Option Value
  form : F

inductive Form where
  | text
  | flag
  | optional (form : Form)
  | list (item : Form)
  | choice (words : List String)
  | record (parts : List (FormPart Form))

abbrev Part := FormPart Form

mutual
def Form.check : Form → Check
  | .text => Check.text
  | .flag => Check.flag
  | .optional form => Check.optional form.check
  | .list item => Check.list item.check
  | .choice words => Check.choice words
  | .record parts => Check.record (checksOf parts)

def checksOf : List (FormPart Form) → List Check.Part
  | [] => []
  | ⟨key, default?, form⟩ :: rest => ⟨key, default?.isNone, form.check⟩ :: checksOf rest
end

/-- A part in the place of one that is absent. -/
def FormPart.absent {F : Type} (p : FormPart F) : Tree := (p.default?.map Value.tree).getD .null

mutual
/-- The normal form of a value: records are lists of all their parts in order, and words of a choice
are strings. -/
def Form.normal : Form → Tree → Tree
  | .text, t => t
  | .flag, t => t
  | .optional _, .null => .null
  | .optional form, t => form.normal t
  | .list item, .array items close => .array (items.map item.normal) close
  | .list _, t => t
  | .choice _, t => (t.word?.map fun word => Tree.text (.ok word)).getD t
  | .record parts, t => .array (normalParts parts 0 t) .closed

def normalParts : List (FormPart Form) → Nat → Tree → List Tree
  | [], _, _ => []
  | ⟨key, default?, form⟩ :: rest, place, t =>
    form.normal ((t.part? key place).getD ((default?.map Value.tree).getD .null)) ::
      normalParts rest (place + 1) t
end

/-- Keys tell the parts of records apart, and every default passes the check of its part. -/
inductive Form.IsSound : Form → Prop where
  | text : IsSound .text
  | flag : IsSound .flag
  | choice (words : List String) : IsSound (.choice words)
  | optional {form : Form} (h : IsSound form) : IsSound (.optional form)
  | list {item : Form} (h : IsSound item) : IsSound (.list item)
  | record {parts : List Part} (distinct : (parts.map (·.key)).Nodup)
    (default : ∀ p ∈ parts, ∀ v, p.default? = some v → p.form.check v.tree = .ok ())
    (part : ∀ p ∈ parts, IsSound p.form) : IsSound (.record parts)

/-! Members of records -/

theorem both_eq_ok_iff {α : Type} {x : Except Defect Unit} {y : Except Defect α} {a : α} :
    (do x; y) = .ok a ↔ x = .ok () ∧ y = .ok a := by
  cases x with
  | error d => exact iff_of_false nofun (fun h => nomatch h.1)
  | ok u => exact (and_iff_right rfl).symm

theorem forM_eq_ok_iff {check : Check} {items : List Tree} :
    items.forM check = .ok () ↔ ∀ t ∈ items, check t = .ok () := by
  induction items with
  | nil => exact iff_of_true rfl nofun
  | cons t items ih =>
    have step : (do check t; items.forM check) = .ok () ↔ _ := both_eq_ok_iff
    rw [ih] at step
    rw [List.forall_mem_cons]
    exact step

def FormPart.toCheck (p : Part) : Check.Part := ⟨p.key, p.default?.isNone, p.form.check⟩

theorem checksOf_eq_map (parts : List Part) : checksOf parts = parts.map FormPart.toCheck := by
  induction parts with
  | nil => rfl
  | cons p parts ih => rw [checksOf, ih, List.map_cons]; rfl

mutual
theorem pass_tree : ∀ v : Value, v.tree.pass = .ok ()
  | .null | .flag _ | .number _ | .text _ => rfl
  | .array items => by
    rw [Value.tree, Tree.pass, passItems_treesOf items]
    rfl
  | .object members => by
    rw [Value.tree, Tree.pass, passEntries_entriesOf members]
    rfl

theorem passItems_treesOf : ∀ items : List Value, passItems (treesOf items) = .ok ()
  | [] => rfl
  | item :: items => by
    rw [treesOf, passItems, pass_tree item, passItems_treesOf items]
    rfl

theorem passEntries_entriesOf : ∀ members : List (List Glyph × Value),
    passEntries (entriesOf members) = .ok ()
  | [] => rfl
  | (key, value) :: members => by
    rw [entriesOf, passEntries, pass_tree value, passEntries_entriesOf members]
    rfl
end

/-- The keys of the members that are parts. -/
def knownKeys (parts : List Part) (members : List Member) : List String :=
  members.filterMap fun m => (text? m.1).filter fun k => parts.any (·.key == k)

/-- The members of a record pass its check, given the keys that came before. -/
structure Fits (parts : List Part) (seen : List String) (members : List Member) : Prop where
  readable : ∀ m ∈ members, ∃ k, text? m.1 = some k
  fit : ∀ m ∈ members, ∀ p ∈ parts, text? m.1 = some p.key → p.form.check m.2.tree = .ok ()
  once : (knownKeys parts members).Nodup
  fresh : ∀ k ∈ knownKeys parts members, k ∉ seen

variable {parts : List Part}

theorem find?_checksOf (parts : List Part) (k : String) :
    (checksOf parts).find? (·.key == k) = (parts.find? (·.key == k)).map FormPart.toCheck := by
  rw [checksOf_eq_map, List.find?_map]
  rfl

theorem decoded_of_text? {key : List Glyph} {k : String} (named : text? key = some k) :
    decoded key = .ok k := by
  rw [decoded, named]

theorem knownKeys_cons_unknown {key : List Glyph} {k : String} (named : text? key = some k)
    (unknown : ∀ p ∈ parts, p.key ≠ k) (value : Value) (members : List Member) :
    knownKeys parts ((key, value) :: members) = knownKeys parts members := by
  rw [knownKeys, List.filterMap_cons_none (by simpa [named] using unknown), knownKeys]

theorem knownKeys_cons_known {key : List Glyph} {p : Part} (named : text? key = some p.key)
    (member : p ∈ parts) (value : Value) (members : List Member) :
    knownKeys parts ((key, value) :: members) = p.key :: knownKeys parts members := by
  have some : parts.any (·.key == p.key) = true :=
    List.any_eq_true.mpr ⟨p, member, beq_self_eq_true _⟩
  rw [knownKeys, List.filterMap_cons_some (b := p.key) (by simp [named, some]), knownKeys]

theorem fits_cons_unknown {key : List Glyph} {k : String} (named : text? key = some k)
    (unknown : ∀ p ∈ parts, p.key ≠ k) (value : Value) (seen : List String)
    (members : List Member) :
    Fits parts seen ((key, value) :: members) ↔ Fits parts seen members := by
  have keys := knownKeys_cons_unknown named unknown value members
  constructor
  · rintro ⟨readable, fit, once, fresh⟩
    rw [keys] at once fresh
    exact ⟨(List.forall_mem_cons.mp readable).2, (List.forall_mem_cons.mp fit).2, once, fresh⟩
  · rintro ⟨readable, fit, once, fresh⟩
    refine ⟨List.forall_mem_cons.mpr ⟨⟨k, named⟩, readable⟩, List.forall_mem_cons.mpr ⟨?_, fit⟩,
      by rwa [keys], by rwa [keys]⟩
    intro p hp same
    exact absurd (Option.some.inj (same.symm.trans named)) (unknown p hp)

theorem fits_cons_known (distinct : (parts.map (·.key)).Nodup) {key : List Glyph} {p : Part}
    (named : text? key = some p.key) (member : p ∈ parts) (value : Value) (seen : List String)
    (members : List Member) :
    Fits parts seen ((key, value) :: members) ↔
      p.key ∉ seen ∧ p.form.check value.tree = .ok () ∧ Fits parts (p.key :: seen) members := by
  have keys := knownKeys_cons_known named member value members
  constructor
  · rintro ⟨readable, fit, once, fresh⟩
    rw [keys] at once fresh
    obtain ⟨new, once⟩ := List.nodup_cons.mp once
    obtain ⟨first, fresh⟩ := List.forall_mem_cons.mp fresh
    obtain ⟨checked, fit⟩ := List.forall_mem_cons.mp fit
    refine ⟨first, checked p member named, (List.forall_mem_cons.mp readable).2, fit, once, ?_⟩
    intro k hk again
    rcases List.mem_cons.mp again with rfl | again
    · exact new hk
    · exact fresh k hk again
  · rintro ⟨first, checked, readable, fit, once, fresh⟩
    have new : p.key ∉ knownKeys parts members :=
      fun again => fresh p.key again List.mem_cons_self
    refine ⟨List.forall_mem_cons.mpr ⟨⟨p.key, named⟩, readable⟩,
      List.forall_mem_cons.mpr ⟨?_, fit⟩, ?_, ?_⟩
    · intro q hq same
      have keysEq : q.key = p.key := Option.some.inj (same.symm.trans named)
      rw [List.inj_on_of_nodup_map distinct hq member keysEq]
      exact checked
    · rw [keys]
      exact List.nodup_cons.mpr ⟨new, once⟩
    · rw [keys]
      exact List.forall_mem_cons.mpr
        ⟨first, fun k hk old => fresh k hk (List.mem_cons_of_mem _ old)⟩

/-- What the check of members finds: they fit, and their known keys are the ones met. -/
theorem members_eq_ok_iff (distinct : (parts.map (·.key)).Nodup) {members : List Member}
    {seen seen' : List String} :
    Check.members (checksOf parts) seen (entriesOf members) = .ok seen' ↔
      Fits parts seen members ∧ seen' = (knownKeys parts members).reverse ++ seen := by
  induction members generalizing seen with
  | nil =>
    have fits : Fits parts seen [] := ⟨nofun, nofun, List.nodup_nil, nofun⟩
    simp [entriesOf, Check.members, fits, knownKeys, eq_comm]
  | cons m members ih =>
    obtain ⟨key, value⟩ := m
    rw [entriesOf]
    cases named : text? key with
    | none =>
      have unreadable : decoded key = .error .malformed := by rw [decoded, named]
      rw [unreadable, Check.members]
      constructor
      · intro impossible
        cases impossible
      · rintro ⟨fits, -⟩
        obtain ⟨k, hk⟩ := fits.readable _ List.mem_cons_self
        cases named.symm.trans hk
    | some k =>
      rw [decoded_of_text? named, Check.members, find?_checksOf]
      cases found : parts.find? (·.key == k) with
      | none =>
        have unknown : ∀ p ∈ parts, p.key ≠ k := by
          simpa using List.find?_eq_none.mp found
        rw [fits_cons_unknown named unknown, knownKeys_cons_unknown named unknown, ← ih,
          Option.map_none, pass_tree]
        rfl
      | some p =>
        have member := List.mem_of_find?_eq_some found
        obtain rfl : p.key = k := by simpa using List.find?_some found
        rw [fits_cons_known distinct named member, knownKeys_cons_known named member,
          Option.map_some]
        by_cases old : p.key ∈ seen
        · simp only [old, not_true_eq_false, false_and]
          refine iff_of_false ?_ id
          intro impossible
          cases impossible
        · simp only [old, not_false_eq_true, true_and, FormPart.toCheck, if_false]
          rw [both_eq_ok_iff, ih, and_assoc, List.reverse_cons,
            List.append_assoc, List.singleton_append]

/-! Records -/

/-- The members make up a record. -/
structure Admits (parts : List Part) (members : List Member) : Prop where
  fits : Fits parts [] members
  whole : ∀ p ∈ parts, p.default? = none → p.key ∈ knownKeys parts members

theorem any_isMissing (parts : List Part) (seen : List String) :
    ((checksOf parts).any fun p => p.isRequired && !seen.contains p.key) = false ↔
      ∀ p ∈ parts, p.default? = none → p.key ∈ seen := by
  have kept (p : Part) : (p.toCheck.isRequired && !seen.contains p.toCheck.key) = false ↔
      (p.default? = none → p.key ∈ seen) := by
    cases default : p.default? <;> simp [FormPart.toCheck, default]
  rw [checksOf_eq_map, List.any_map, List.any_eq_false]
  simp only [Function.comp_apply, Bool.not_eq_true, kept]

theorem check_object_iff (distinct : (parts.map (·.key)).Nodup) {members : List Member} :
    (Form.record parts).check (Value.object members).tree = .ok () ↔ Admits parts members := by
  rw [Form.check, Value.tree, Check.record]
  cases read : Check.members (checksOf parts) [] (entriesOf members) with
  | error d =>
    constructor
    · intro impossible
      cases impossible
    · intro admits
      have ok := (members_eq_ok_iff distinct).mpr ⟨admits.fits, rfl⟩
      cases read.symm.trans ok
  | ok seen =>
    obtain ⟨fits, met⟩ := (members_eq_ok_iff distinct).mp read
    have known (k : String) : k ∈ seen ↔ k ∈ knownKeys parts members := by
      rw [met, List.append_nil, List.mem_reverse]
    have whole := any_isMissing parts seen
    simp only [known] at whole
    simp only [Close.check, bind, Except.bind]
    split
    · next missing =>
      refine iff_of_false nofun ?_
      intro admits
      rw [whole.mpr admits.whole] at missing
      cases missing
    · next complete =>
      exact iff_of_true rfl ⟨fits, whole.mp (Bool.eq_false_iff.mpr complete)⟩

theorem member?_entriesOf (k : String) (members : List Member) :
    Tree.member? k (entriesOf members) =
      (members.find? fun m => text? m.1 == some k).map (·.2.tree) := by
  induction members with
  | nil => rfl
  | cons m members ih =>
    obtain ⟨key, value⟩ := m
    cases named : text? key with
    | none =>
      have unreadable : decoded key = .error .malformed := by rw [decoded, named]
      rw [entriesOf, unreadable, Tree.member?, ih, List.find?_cons_of_neg (by simp [named])]
      intro name tree impossible
      cases impossible
    | some name =>
      rw [entriesOf, decoded_of_text? named, Tree.member?]
      by_cases same : name = k
      · rw [if_pos same, List.find?_cons_of_pos (by simp [named, same]), Option.map_some]
      · rw [if_neg same, ih, List.find?_cons_of_neg (by simp [named, same])]

theorem mem_knownKeys {members : List Member} {p : Part} (member : p ∈ parts) :
    p.key ∈ knownKeys parts members ↔ ∃ m ∈ members, text? m.1 = some p.key := by
  have known : parts.any (·.key == p.key) = true :=
    List.any_eq_true.mpr ⟨p, member, beq_self_eq_true _⟩
  simp only [knownKeys, List.mem_filterMap, Option.filter_eq_some_iff, known, and_true]

/-- A part of a record that is written in order. -/
theorem exists_item {place : Nat} {p : Part} {items : List Value} (hp : parts[place]? = some p)
    (required : p.default? = none)
    (ok : Check.positional (checksOf parts) (treesOf items) .closed = .ok ()) :
    ∃ a : Value, items[place]? = some a ∧ p.form.check a.tree = .ok () := by
  induction parts generalizing place items with
  | nil => cases hp
  | cons q parts ih =>
    cases items with
    | nil =>
      have missing : (checksOf (q :: parts)).any (·.isRequired) = true := by
        rw [checksOf_eq_map, List.any_map, List.any_eq_true]
        exact ⟨p, List.mem_of_getElem? hp, by simp [FormPart.toCheck, required]⟩
      rw [treesOf, Check.positional, missing] at ok
      cases ok
      simp [checksOf]
    | cons a items =>
      rw [treesOf, checksOf, Check.positional] at ok
      obtain ⟨checked, ok⟩ := both_eq_ok_iff.mp ok
      cases place with
      | zero =>
        obtain rfl := Option.some.inj hp
        exact ⟨a, rfl, checked⟩
      | succ place =>
        rw [List.getElem?_cons_succ] at hp
        obtain ⟨b, hb, passed⟩ := ih hp ok
        exact ⟨b, by rwa [List.getElem?_cons_succ], passed⟩

/-- A required part of a record is there, and passes its own check. -/
theorem exists_part (distinct : (parts.map (·.key)).Nodup) {v : Value}
    (ok : (Form.record parts).check v.tree = .ok ()) {p : Part} {place : Nat}
    (hp : parts[place]? = some p) (required : p.default? = none) :
    ∃ a : Value, v.tree.part? p.key place = some a.tree ∧ p.form.check a.tree = .ok () := by
  have member := List.mem_of_getElem? hp
  cases v with
  | object members =>
    have admits := (check_object_iff distinct).mp ok
    obtain ⟨m, hm, named⟩ := (mem_knownKeys member).mp (admits.whole p member required)
    obtain ⟨n, found⟩ : ∃ n, members.find? (fun m => text? m.1 == some p.key) = some n :=
      Option.isSome_iff_exists.mp (List.find?_isSome.mpr ⟨m, hm, by simp [named]⟩)
    have same : text? n.1 = some p.key := by simpa using List.find?_some found
    refine ⟨n.2, ?_, admits.fits.fit n (List.mem_of_find?_eq_some found) p member same⟩
    rw [Value.tree, Tree.part?, member?_entriesOf, found, Option.map_some]
  | array items =>
    obtain ⟨a, ha, checked⟩ := exists_item hp required ok
    refine ⟨a, ?_, checked⟩
    rw [Value.tree, Tree.part?, treesOf_eq_map, List.getElem?_map, ha, Option.map_some]
  | _ => cases ok

end GraphqlCrud.Json
