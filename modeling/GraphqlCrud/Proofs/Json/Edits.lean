import Mathlib.Data.List.Perm.Basic
import Mathlib.Logic.Relation
import GraphqlCrud.Proofs.Json.Forms
/-!
Changes of a value that make no difference for a form. A value that passes its check still does so
after such a change, and has the same normal form.
-/
namespace GraphqlCrud.Json

/-- A change of a value that makes no difference for a form. -/
inductive Edit : Form → Value → Value → Prop where
  /-- The members of a record change places. -/
  | permute {parts : List Part} {members members' : List Member} (h : members.Perm members') :
    Edit (.record parts) (.object members) (.object members')
  /-- A member with a key of no part comes into a record, whatever its value is. -/
  | insert {parts : List Part} {before after : List Member} {key : List Glyph} {name : String}
    (value : Value) (named : text? key = some name) (unknown : ∀ p ∈ parts, p.key ≠ name) :
    Edit (.record parts) (.object (before ++ after)) (.object (before ++ (key, value) :: after))
  /-- A part that is absent is written with its default. -/
  | add {parts : List Part} {before after : List Member} {key : List Glyph} {p : Part}
    {value : Value} (member : p ∈ parts) (default : p.default? = some value)
    (named : text? key = some p.key) (absent : ∀ m ∈ before ++ after, text? m.1 ≠ some p.key) :
    Edit (.record parts) (.object (before ++ after)) (.object (before ++ (key, value) :: after))
  /-- A part that holds its default is left out. -/
  | remove {parts : List Part} {before after : List Member} {key : List Glyph} {p : Part}
    {value : Value} (member : p ∈ parts) (default : p.default? = some value)
    (named : text? key = some p.key) :
    Edit (.record parts) (.object (before ++ (key, value) :: after)) (.object (before ++ after))
  /-- A part of a record changes. -/
  | inMember {parts : List Part} {before after : List Member} {key : List Glyph} {p : Part}
    {v w : Value} (member : p ∈ parts) (named : text? key = some p.key) (h : Edit p.form v w) :
    Edit (.record parts) (.object (before ++ (key, v) :: after))
      (.object (before ++ (key, w) :: after))
  /-- A part of a record changes that is written without keys. -/
  | inPlace {parts : List Part} {before after : List Value} {p : Part} {v w : Value}
    (place : parts[before.length]? = some p) (h : Edit p.form v w) :
    Edit (.record parts) (.array (before ++ v :: after)) (.array (before ++ w :: after))
  | inItem {item : Form} {before after : List Value} {v w : Value} (h : Edit item v w) :
    Edit (.list item) (.array (before ++ v :: after)) (.array (before ++ w :: after))
  | inOptional {form : Form} {v w : Value} (h : Edit form v w) : Edit (.optional form) v w

theorem Edit.ne_null {f : Form} {v w : Value} (h : Edit f v w) : v ≠ .null ∧ w ≠ .null := by
  induction h with
  | inOptional _ ih => exact ih
  | _ => exact ⟨nofun, nofun⟩

/-! Normal forms of records -/

variable {parts : List Part}

theorem normalParts_congr {t t' : Tree} (n : Nat) (same : ∀ i (p : Part), parts[i]? = some p →
    p.form.normal ((t.part? p.key (n + i)).getD p.absent) =
      p.form.normal ((t'.part? p.key (n + i)).getD p.absent)) :
    normalParts parts n t = normalParts parts n t' := by
  induction parts generalizing n with
  | nil => rfl
  | cons p parts ih =>
    rw [normalParts, normalParts]
    refine congrArg₂ List.cons (same 0 p rfl) (ih (n + 1) ?_)
    intro i q hq
    have shifted : n + 1 + i = n + (i + 1) := by omega
    rw [shifted]
    exact same (i + 1) q (by rwa [List.getElem?_cons_succ])

/-- What the members hold for a part, in normal form. -/
def slot (members : List Member) (p : Part) : Tree :=
  p.form.normal
    (((members.find? fun m => text? m.1 == some p.key).map (·.2.tree)).getD p.absent)

theorem normal_object {members members' : List Member}
    (same : ∀ p ∈ parts, slot members p = slot members' p) :
    (Form.record parts).normal (Value.object members).tree =
      (Form.record parts).normal (Value.object members').tree := by
  rw [Value.tree, Value.tree, Form.normal, Form.normal]
  refine congrArg (Tree.array · .closed) (normalParts_congr 0 ?_)
  intro i p hp
  simp only [Tree.part?, member?_entriesOf]
  exact same p (List.mem_of_getElem? hp)

/-! Members in another order -/

theorem find?_perm {α : Type} {q : α → Bool} {l l' : List α} (h : l.Perm l')
    (once : (l.filter q).length ≤ 1) : l.find? q = l'.find? q := by
  have same := h.filter q
  rw [← List.head?_filter, ← List.head?_filter]
  cases found : l.filter q with
  | nil => rw [found] at same; rw [same.nil_eq]
  | cons a rest =>
    rw [found] at same once
    obtain rfl : rest = [] := List.length_eq_zero_iff.mp (by simpa using once)
    rw [List.singleton_perm.mp same]

theorem length_filter_named {p : Part} (member : p ∈ parts) (members : List Member) :
    (members.filter fun m => text? m.1 == some p.key).length =
      (knownKeys parts members).count p.key := by
  have known : parts.any (·.key == p.key) = true :=
    List.any_eq_true.mpr ⟨p, member, beq_self_eq_true _⟩
  rw [knownKeys, List.count_filterMap, ← List.countP_eq_length_filter]
  apply List.countP_congr
  intro m _
  simp only [beq_iff_eq, Option.filter_eq_some_iff, known, and_true]

theorem Fits.slot_perm {members members' : List Member} {seen : List String}
    (fits : Fits parts seen members) (h : members.Perm members') {p : Part} (member : p ∈ parts) :
    slot members p = slot members' p := by
  have once := List.nodup_iff_count_le_one.mp fits.once p.key
  rw [← length_filter_named member] at once
  rw [slot, slot, find?_perm h once]

theorem Admits.perm {members members' : List Member} (admits : Admits parts members)
    (h : members.Perm members') : Admits parts members' := by
  obtain ⟨⟨readable, fit, once, fresh⟩, whole⟩ := admits
  have keys : (knownKeys parts members).Perm (knownKeys parts members') := h.filterMap _
  refine ⟨⟨?_, ?_, keys.nodup_iff.mp once, fun k _ => List.not_mem_nil⟩, ?_⟩
  · exact fun m hm => readable m (h.mem_iff.mpr hm)
  · exact fun m hm => fit m (h.mem_iff.mpr hm)
  · exact fun p hp required => keys.mem_iff.mp (whole p hp required)

/-! One member more or less -/

theorem admits_cons_unknown {key : List Glyph} {name : String} (named : text? key = some name)
    (unknown : ∀ p ∈ parts, p.key ≠ name) (value : Value) (members : List Member) :
    Admits parts ((key, value) :: members) ↔ Admits parts members := by
  have fits := fits_cons_unknown named unknown value [] members
  have keys := knownKeys_cons_unknown named unknown value members
  constructor
  · rintro ⟨h, whole⟩
    rw [keys] at whole
    exact ⟨fits.mp h, whole⟩
  · rintro ⟨h, whole⟩
    exact ⟨fits.mpr h, by rwa [keys]⟩

section Known

variable (distinct : (parts.map (·.key)).Nodup) {key : List Glyph} {p : Part}
  (named : text? key = some p.key) (member : p ∈ parts)
include distinct named member

theorem admits_add {value : Value} {members : List Member}
    (checked : p.form.check value.tree = .ok ()) (absent : ∀ m ∈ members, text? m.1 ≠ some p.key)
    (admits : Admits parts members) : Admits parts ((key, value) :: members) := by
  obtain ⟨⟨readable, fit, once, -⟩, whole⟩ := admits
  have keys := knownKeys_cons_known named member value members
  have fresh : ∀ k ∈ knownKeys parts members, k ∉ [p.key] := by
    intro k hk same
    obtain rfl := List.mem_singleton.mp same
    obtain ⟨m, hm, again⟩ := (mem_knownKeys member).mp hk
    exact absent m hm again
  refine ⟨(fits_cons_known distinct named member value [] members).mpr
    ⟨List.not_mem_nil, checked, readable, fit, once, fresh⟩, ?_⟩
  intro q hq required
  rw [keys]
  exact List.mem_cons_of_mem _ (whole q hq required)

/-- Behind a member of a part there is no other of it. -/
theorem absent_of_fits {value : Value} {members : List Member}
    (fits : Fits parts [] ((key, value) :: members)) : ∀ m ∈ members, text? m.1 ≠ some p.key := by
  obtain ⟨-, -, rest⟩ := (fits_cons_known distinct named member value [] members).mp fits
  intro m hm again
  exact rest.fresh p.key ((mem_knownKeys member).mpr ⟨m, hm, again⟩) (List.mem_singleton_self _)

theorem admits_remove {value : Value} {members : List Member} (default : p.default? ≠ none)
    (admits : Admits parts ((key, value) :: members)) : Admits parts members := by
  obtain ⟨fits, whole⟩ := admits
  obtain ⟨-, -, rest⟩ := (fits_cons_known distinct named member value [] members).mp fits
  refine ⟨⟨rest.readable, rest.fit, rest.once, fun k _ => List.not_mem_nil⟩, ?_⟩
  intro q hq required
  have kept := whole q hq required
  rw [knownKeys_cons_known named member] at kept
  rcases List.mem_cons.mp kept with same | kept
  · rw [List.inj_on_of_nodup_map distinct hq member same] at required
    exact absurd required default
  · exact kept

theorem admits_replace {v w : Value} {members : List Member}
    (checked : p.form.check v.tree = .ok () → p.form.check w.tree = .ok ())
    (admits : Admits parts ((key, v) :: members)) : Admits parts ((key, w) :: members) := by
  obtain ⟨fits, whole⟩ := admits
  obtain ⟨fresh, ok, rest⟩ := (fits_cons_known distinct named member v [] members).mp fits
  rw [knownKeys_cons_known named member] at whole
  refine ⟨(fits_cons_known distinct named member w [] members).mpr ⟨fresh, checked ok, rest⟩, ?_⟩
  rwa [knownKeys_cons_known named member]

theorem ne_key {q : Part} (hq : q ∈ parts) (other : q ≠ p) : text? key ≠ some q.key := by
  intro same
  have keys : q.key = p.key := Option.some.inj (same.symm.trans named)
  exact other (List.inj_on_of_nodup_map distinct hq member keys)

end Known

theorem slot_cons_other {key : List Glyph} {p : Part} (other : text? key ≠ some p.key)
    (value : Value) (members : List Member) :
    slot ((key, value) :: members) p = slot members p := by
  rw [slot, List.find?_cons_of_neg (by simpa using other), slot]

theorem slot_cons_self {key : List Glyph} {p : Part} (named : text? key = some p.key)
    (value : Value) (members : List Member) :
    slot ((key, value) :: members) p = p.form.normal value.tree := by
  rw [slot, List.find?_cons_of_pos (by simp [named])]
  rfl

theorem slot_of_absent {p : Part} {members : List Member}
    (absent : ∀ m ∈ members, text? m.1 ≠ some p.key) : slot members p = p.form.normal p.absent := by
  have none : members.find? (fun m => text? m.1 == some p.key) = none := by
    simpa using absent
  rw [slot, none]
  rfl

/-- The second members make up a record too, and hold the same. -/
structure Agrees (parts : List Part) (members members' : List Member) : Prop where
  admits : Admits parts members'
  slot : ∀ p ∈ parts, slot members p = slot members' p

theorem Agrees.perm {members members' : List Member} (admits : Admits parts members)
    (h : members.Perm members') : Agrees parts members members' :=
  ⟨admits.perm h, fun _ hp => admits.fits.slot_perm h hp⟩

theorem Agrees.trans {a b c : List Member} (h : Agrees parts a b) (h' : Agrees parts b c) :
    Agrees parts a c :=
  ⟨h'.admits, fun p hp => (h.slot p hp).trans (h'.slot p hp)⟩

/-- It does not matter where among the others a member stands. -/
theorem Agrees.middle {m : Member} {before after : List Member}
    (admits : Admits parts (m :: (before ++ after))) :
    Agrees parts (m :: (before ++ after)) (before ++ m :: after) :=
  .perm admits List.perm_middle.symm

theorem Agrees.insert {key : List Glyph} {name : String} {value : Value} {members : List Member}
    (named : text? key = some name) (unknown : ∀ p ∈ parts, p.key ≠ name)
    (admits : Admits parts ((key, value) :: members)) :
    Agrees parts members ((key, value) :: members) := by
  refine ⟨admits, fun p hp => (slot_cons_other ?_ value members).symm⟩
  intro same
  exact unknown p hp (Option.some.inj (same.symm.trans named))

section Part

variable (distinct : (parts.map (·.key)).Nodup) {key : List Glyph} {p : Part}
  (named : text? key = some p.key) (member : p ∈ parts)
include distinct named member

theorem slot_default {value : Value} {members : List Member} (default : p.default? = some value)
    (absent : ∀ m ∈ members, text? m.1 ≠ some p.key) :
    ∀ q ∈ parts, slot members q = slot ((key, value) :: members) q := by
  intro q hq
  by_cases same : q = p
  · subst same
    rw [slot_of_absent absent, slot_cons_self named, FormPart.absent, default]
    rfl
  · rw [slot_cons_other (ne_key distinct named member hq same)]

theorem Agrees.add {value : Value} {members : List Member} (default : p.default? = some value)
    (checked : p.form.check value.tree = .ok ()) (absent : ∀ m ∈ members, text? m.1 ≠ some p.key)
    (admits : Admits parts members) : Agrees parts members ((key, value) :: members) :=
  ⟨admits_add distinct named member checked absent admits,
    slot_default distinct named member default absent⟩

theorem Agrees.remove {value : Value} {members : List Member} (default : p.default? = some value)
    (admits : Admits parts ((key, value) :: members)) :
    Agrees parts ((key, value) :: members) members := by
  have absent := absent_of_fits distinct named member admits.fits
  exact ⟨admits_remove distinct named member (by rw [default]; exact nofun) admits,
    fun q hq => (slot_default distinct named member default absent q hq).symm⟩

theorem Agrees.replace {v w : Value} {members : List Member}
    (keeps : p.form.check v.tree = .ok () →
      p.form.check w.tree = .ok () ∧ p.form.normal v.tree = p.form.normal w.tree)
    (admits : Admits parts ((key, v) :: members)) :
    Agrees parts ((key, v) :: members) ((key, w) :: members) := by
  obtain ⟨checked, normal⟩ := keeps (admits.fits.fit _ List.mem_cons_self p member named)
  refine ⟨admits_replace distinct named member (fun _ => checked) admits, fun q hq => ?_⟩
  by_cases same : q = p
  · subst same
    rw [slot_cons_self named, slot_cons_self named, normal]
  · have other := ne_key distinct named member hq same
    rw [slot_cons_other other, slot_cons_other other]

end Part

theorem Agrees.preserves (distinct : (parts.map (·.key)).Nodup) {members members' : List Member}
    (h : Agrees parts members members') :
    (Form.record parts).check (Value.object members').tree = .ok () ∧
      (Form.record parts).normal (Value.object members).tree =
        (Form.record parts).normal (Value.object members').tree :=
  ⟨(check_object_iff distinct).mpr h.admits, normal_object h.slot⟩

/-! Records that are written in order -/

/-- In a record that is written in order an item can be replaced by another that passes. -/
theorem positional_replace {before after : List Tree} {v : Tree} {p : Part}
    (place : parts[before.length]? = some p)
    (ok : Check.positional (checksOf parts) (before ++ v :: after) .closed = .ok ()) :
    p.form.check v = .ok () ∧ ∀ w, p.form.check w = .ok () →
      Check.positional (checksOf parts) (before ++ w :: after) .closed = .ok () := by
  induction before generalizing parts with
  | nil =>
    cases parts with
    | nil => cases place
    | cons q parts =>
      obtain rfl := Option.some.inj place
      obtain ⟨passed, rest⟩ := both_eq_ok_iff.mp ok
      exact ⟨passed, fun w checked => both_eq_ok_iff.mpr ⟨checked, rest⟩⟩
  | cons b before ih =>
    cases parts with
    | nil => cases place
    | cons q parts =>
      obtain ⟨passed, rest⟩ := both_eq_ok_iff.mp ok
      obtain ⟨checked, replace⟩ := ih place rest
      exact ⟨checked, fun w hw => both_eq_ok_iff.mpr ⟨passed, replace w hw⟩⟩

theorem getElem?_replace {α : Type} (before after : List α) (a b : α) {i : Nat}
    (other : i ≠ before.length) : (before ++ a :: after)[i]? = (before ++ b :: after)[i]? := by
  rcases Nat.lt_or_gt_of_ne other with less | more
  · rw [List.getElem?_append_left less, List.getElem?_append_left less]
  · obtain ⟨k, rfl⟩ := Nat.exists_eq_add_of_lt more
    have shifted : before.length + k + 1 - before.length = k + 1 := by omega
    rw [List.getElem?_append_right (by omega), List.getElem?_append_right (by omega), shifted,
      List.getElem?_cons_succ, List.getElem?_cons_succ]

theorem normal_replace {before after : List Tree} {v w : Tree} {p : Part}
    (place : parts[before.length]? = some p) (same : p.form.normal v = p.form.normal w) :
    (Form.record parts).normal (.array (before ++ v :: after) .closed) =
      (Form.record parts).normal (.array (before ++ w :: after) .closed) := by
  rw [Form.normal, Form.normal]
  refine congrArg (Tree.array · .closed) (normalParts_congr 0 ?_)
  intro i q hq
  simp only [Tree.part?, Nat.zero_add]
  by_cases here : i = before.length
  · subst here
    obtain rfl := Option.some.inj (hq.symm.trans place)
    simpa using same
  · rw [getElem?_replace before after v w here]

theorem tree_replace (before after : List Value) (v : Value) :
    (Value.array (before ++ v :: after)).tree =
      .array (before.map Value.tree ++ v.tree :: after.map Value.tree) .closed := by
  rw [Value.tree, treesOf_eq_map, List.map_append, List.map_cons]

theorem record_replace {before after : List Value} {v w : Value} {p : Part}
    (place : parts[before.length]? = some p)
    (keeps : p.form.check v.tree = .ok () →
      p.form.check w.tree = .ok () ∧ p.form.normal v.tree = p.form.normal w.tree)
    (ok : (Form.record parts).check (Value.array (before ++ v :: after)).tree = .ok ()) :
    (Form.record parts).check (Value.array (before ++ w :: after)).tree = .ok () ∧
      (Form.record parts).normal (Value.array (before ++ v :: after)).tree =
        (Form.record parts).normal (Value.array (before ++ w :: after)).tree := by
  have here : parts[(before.map Value.tree).length]? = some p := by rwa [List.length_map]
  rw [Form.check, tree_replace, Check.record] at ok
  obtain ⟨passed, replace⟩ := positional_replace here ok
  obtain ⟨checked, normal⟩ := keeps passed
  rw [tree_replace, tree_replace]
  exact ⟨replace w.tree checked, normal_replace here normal⟩

/-! Lists -/

theorem check_list_iff {item : Form} {values : List Value} :
    (Form.list item).check (Value.array values).tree = .ok () ↔
      ∀ v ∈ values, item.check v.tree = .ok () := by
  have items : (Form.list item).check (Value.array values).tree = .ok () ↔
      (treesOf values).forM item.check = .ok () ∧ Close.closed.check = .ok () := both_eq_ok_iff
  have closed : Close.closed.check = .ok () := rfl
  rw [items, and_iff_left closed, forM_eq_ok_iff, treesOf_eq_map, List.forall_mem_map]

theorem list_replace {item : Form} {before after : List Value} {v w : Value}
    (keeps : item.check v.tree = .ok () →
      item.check w.tree = .ok () ∧ item.normal v.tree = item.normal w.tree)
    (ok : (Form.list item).check (Value.array (before ++ v :: after)).tree = .ok ()) :
    (Form.list item).check (Value.array (before ++ w :: after)).tree = .ok () ∧
      (Form.list item).normal (Value.array (before ++ v :: after)).tree =
        (Form.list item).normal (Value.array (before ++ w :: after)).tree := by
  rw [check_list_iff, List.forall_mem_append, List.forall_mem_cons] at ok ⊢
  obtain ⟨first, passed, rest⟩ := ok
  obtain ⟨checked, normal⟩ := keeps passed
  refine ⟨⟨first, checked, rest⟩, ?_⟩
  rw [tree_replace, tree_replace, Form.normal, Form.normal, List.map_append, List.map_append,
    List.map_cons, List.map_cons, normal]

/-! Values that may be null -/

theorem Value.tree_ne_null {v : Value} (h : v ≠ .null) : v.tree ≠ .null := by
  cases v with
  | null => exact absurd rfl h
  | _ => exact nofun

theorem check_optional {f : Form} {t : Tree} (h : t ≠ .null) :
    (Form.optional f).check t = f.check t := by
  cases t with
  | null => exact absurd rfl h
  | _ => rfl

theorem normal_optional {f : Form} {t : Tree} (h : t ≠ .null) :
    (Form.optional f).normal t = f.normal t := by
  cases t with
  | null => exact absurd rfl h
  | _ => rw [Form.normal]; exact nofun

/-- After an edit a value passes the same check, and its normal form is the same. -/
theorem Edit.preserves {f : Form} {v w : Value} (h : Edit f v w) (sound : f.IsSound)
    (ok : f.check v.tree = .ok ()) :
    f.check w.tree = .ok () ∧ f.normal v.tree = f.normal w.tree := by
  induction h with
  | permute h =>
    cases sound with
    | record distinct _ _ =>
      exact (Agrees.perm ((check_object_iff distinct).mp ok) h).preserves distinct
  | insert value named unknown =>
    cases sound with
    | record distinct _ _ =>
      have admits := (admits_cons_unknown named unknown value _).mpr
        ((check_object_iff distinct).mp ok)
      exact ((Agrees.insert named unknown admits).trans (.middle admits)).preserves distinct
  | add member default named absent =>
    cases sound with
    | record distinct checked _ =>
      have added := Agrees.add distinct named member default (checked _ member _ default) absent
        ((check_object_iff distinct).mp ok)
      exact (added.trans (.middle added.admits)).preserves distinct
  | remove member default named =>
    cases sound with
    | record distinct _ _ =>
      have front := Agrees.perm ((check_object_iff distinct).mp ok) List.perm_middle
      exact (front.trans (.remove distinct named member default front.admits)).preserves distinct
  | inMember member named h ih =>
    cases sound with
    | record distinct _ part =>
      have front := Agrees.perm ((check_object_iff distinct).mp ok) List.perm_middle
      have replaced := Agrees.replace distinct named member (ih (part _ member)) front.admits
      exact ((front.trans replaced).trans (.middle replaced.admits)).preserves distinct
  | inPlace place h ih =>
    cases sound with
    | record _ _ part => exact record_replace place (ih (part _ (List.mem_of_getElem? place))) ok
  | inItem h ih =>
    cases sound with
    | list sound => exact list_replace (ih sound) ok
  | inOptional h ih =>
    cases sound with
    | optional sound =>
      have hv := Value.tree_ne_null h.ne_null.1
      have hw := Value.tree_ne_null h.ne_null.2
      rw [check_optional hv] at ok
      rw [check_optional hw, normal_optional hv, normal_optional hw]
      exact ih sound ok

/-- Changes that make no difference for a form, one after the other. -/
theorem Edit.preserves_all {f : Form} (sound : f.IsSound) {v w : Value}
    (h : Relation.ReflTransGen (Edit f) v w) (ok : f.check v.tree = .ok ()) :
    f.check w.tree = .ok () ∧ f.normal v.tree = f.normal w.tree := by
  induction h with
  | refl => exact ⟨ok, rfl⟩
  | tail _ step ih =>
    obtain ⟨checked, same⟩ := step.preserves sound ih.1
    exact ⟨checked, ih.2.trans same⟩

end GraphqlCrud.Json
