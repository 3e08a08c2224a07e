import GraphqlCrud.Proofs.Json.Edits
import GraphqlCrud.Proofs.Json.Passing
import GraphqlCrud.Schema.Reader
/-!
What descriptions may differ in and still be read as the same. A description of another version may
have members that the reader does not know, and lack some that it does.
-/
namespace GraphqlCrud.Schema

open Json (Form FormPart Part Tree Glyph Member Value Edit)

/-! The forms of a description. -/

/-- A part that has to be there. -/
def needed (key : String) (form : Form) : Part := { key, default? := none, form }

/-- A part that holds a value when it is absent. -/
def assumed (key : String) (value : Value) (form : Form) : Part :=
  { key, default? := some value, form }

def fieldForm : Form := .record [
  needed "name" .text,
  needed "kind" (.choice (FieldKind.all.map FieldKind.word)),
  needed "type" .text,
  assumed "relationName" .null (.optional .text),
  assumed "isRequired" (.flag false) .flag,
  assumed "isList" (.flag false) .flag,
  assumed "isId" (.flag false) .flag,
  assumed "documentation" .null (.optional .text)]

def compositeKeyForm : Form := .record [
  assumed "name" .null (.optional .text),
  needed "fields" (.list .text)]

def modelForm : Form := .record [
  needed "name" .text,
  needed "fields" (.list fieldForm),
  assumed "primaryKey" .null (.optional compositeKeyForm),
  assumed "documentation" .null (.optional .text)]

def enumValueForm : Form := .record [needed "name" .text]

def declaredEnumForm : Form := .record [
  needed "name" .text,
  needed "values" (.list enumValueForm)]

def dataModelForm : Form := .record [
  needed "models" (.list modelForm),
  assumed "enums" (.array []) (.list declaredEnumForm)]

def typeRefForm : Form := .record [
  needed "type" .text,
  needed "location" (.choice (Location.all.map Location.word)),
  assumed "isList" (.flag false) .flag]

def inputFieldForm : Form := .record [
  needed "name" .text,
  assumed "isRequired" (.flag false) .flag,
  needed "inputTypes" (.list typeRefForm)]

def inputTypeForm : Form := .record [
  needed "name" .text,
  needed "fields" (.list inputFieldForm)]

def builtinEnumForm : Form := .record [
  needed "name" .text,
  needed "values" (.list .text)]

def namespacesForm (item : Form) : Form := .record [
  assumed "prisma" (.array []) (.list item),
  assumed "model" (.array []) (.list item)]

def clientForm : Form := .record [
  needed "inputObjectTypes" (namespacesForm inputTypeForm),
  assumed "enumTypes" (.object []) (namespacesForm builtinEnumForm)]

def documentForm : Form := .record [
  needed "datamodel" dataModelForm,
  needed "schema" clientForm]

/-- The form is what the reader checks. -/
theorem check_documentForm : documentForm.check = documentShape := rfl

/-! Normal forms are read like the values themselves. -/

section Parts

theorem getElem?_normalParts (parts : List Part) (n i : Nat) (t : Tree) :
    (Json.normalParts parts n t)[i]? =
      parts[i]?.map fun p => p.form.normal ((t.part? p.key (n + i)).getD p.absent) := by
  induction parts generalizing n i with
  | nil => rfl
  | cons p parts ih =>
    cases i with
    | zero => rfl
    | succ i =>
      have shifted : n + 1 + i = n + (i + 1) := by omega
      rw [Json.normalParts, List.getElem?_cons_succ, List.getElem?_cons_succ, ih, shifted]

variable {parts : List Part} {key : String} {place : Nat}

theorem part?_normal {default? : Option Value} {form : Form}
    (hp : parts[place]? = some ⟨key, default?, form⟩) (t : Tree) :
    ((Form.record parts).normal t).part? key place =
      some (form.normal ((t.part? key place).getD ((default?.map Value.tree).getD .null))) := by
  rw [Form.normal, Tree.part?, getElem?_normalParts, hp, Nat.zero_add, Option.map_some]
  rfl

theorem part?_assumed (value : Value) (form : Form) (t : Tree)
    (hp : parts[place]? = some (assumed key value form)) :
    ((Form.record parts).normal t).part? key place =
      some (form.normal ((t.part? key place).getD value.tree)) :=
  part?_normal hp t

theorem textAt_needed (t : Tree) (hp : parts[place]? = some (needed key .text)) :
    textAt ((Form.record parts).normal t) key place = textAt t key place := by
  rw [textAt, part?_normal hp t, textAt]
  cases t.part? key place <;> rfl

theorem textAt_assumed (t : Tree)
    (hp : parts[place]? = some (assumed key .null (.optional .text))) :
    textAt ((Form.record parts).normal t) key place = textAt t key place := by
  rw [textAt, part?_normal hp t, textAt]
  cases t.part? key place with
  | none => rfl
  | some a => cases a <;> rfl

theorem flagAt_assumed (t : Tree) (hp : parts[place]? = some (assumed key (.flag false) .flag)) :
    flagAt ((Form.record parts).normal t) key place = flagAt t key place := by
  rw [flagAt, part?_normal hp t, flagAt]
  cases t.part? key place <;> rfl

theorem word?_normal (words : List String) (t : Tree) :
    ((Form.choice words).normal t).word? = t.word? := by
  rw [Form.normal]
  cases word : t.word? with
  | none => exact word
  | some w => rfl

theorem wordAt_needed (words : List String) (t : Tree)
    (hp : parts[place]? = some (needed key (.choice words))) :
    wordAt ((Form.record parts).normal t) key place = wordAt t key place := by
  rw [wordAt, part?_normal hp t, wordAt]
  cases t.part? key place with
  | none => exact word?_normal words .null
  | some a => exact word?_normal words a

theorem items?_normal (item : Form) (t : Tree) :
    ((Form.list item).normal t).items? = t.items?.map (List.map item.normal) := by
  cases t <;> rfl

theorem itemsAt?_needed (item : Form) (t : Tree)
    (hp : parts[place]? = some (needed key (.list item))) :
    itemsAt? ((Form.record parts).normal t) key place =
      (itemsAt? t key place).map (List.map item.normal) := by
  rw [itemsAt?, part?_normal hp t, itemsAt?]
  cases t.part? key place with
  | none => exact items?_normal item .null
  | some a => exact items?_normal item a

theorem itemsAt_assumed (item : Form) (t : Tree)
    (hp : parts[place]? = some (assumed key (.array []) (.list item))) :
    itemsAt ((Form.record parts).normal t) key place =
      (itemsAt t key place).map item.normal := by
  rw [itemsAt, itemsAt?, part?_normal hp t, itemsAt, itemsAt?]
  cases t.part? key place with
  | none => rfl
  | some a => cases a <;> rfl

theorem part?_optional {α : Type} {read : Tree → Option α} {form : Form}
    (same : ∀ t, read (form.normal t) = read t) (null : read .null = none) (t : Tree)
    (hp : parts[place]? = some (assumed key .null (.optional form))) :
    (((Form.record parts).normal t).part? key place).bind read =
      (t.part? key place).bind read := by
  rw [part?_normal hp t]
  cases t.part? key place with
  | none => exact null
  | some a =>
    cases a with
    | null => rfl
    | _ => exact same _

end Parts

/-- Reading items in normal form is reading the items. -/
theorem mapM_map_normal {α : Type} {read : Tree → Option α} {item : Form}
    (same : ∀ t, read (item.normal t) = read t) (items : List Tree) :
    (items.map item.normal).mapM read = items.mapM read := by
  rw [List.mapM_map]
  exact congrArg (fun f => items.mapM f) (funext same)

theorem Field.ofTree?_normal (t : Tree) : Field.ofTree? (fieldForm.normal t) = Field.ofTree? t := by
  rw [fieldForm, Field.ofTree?, wordAt_needed (FieldKind.all.map FieldKind.word) t rfl,
    textAt_needed t rfl, textAt_needed t rfl, textAt_assumed t rfl, flagAt_assumed t rfl,
    flagAt_assumed t rfl, flagAt_assumed t rfl, textAt_assumed t rfl, ← Field.ofTree?]

/-- A required list is read alike in normal form. -/
theorem bind_mapM_normal {α β : Type} {read : Tree → Option α} {item : Form}
    (same : ∀ t, read (item.normal t) = read t) (items? : Option (List Tree))
    (next : List α → Option β) :
    ((items?.map (List.map item.normal)).bind fun items => (items.mapM read).bind next) =
      items?.bind fun items => (items.mapM read).bind next := by
  cases items? with
  | none => rfl
  | some items => exact congrArg (Option.bind · next) (mapM_map_normal same items)

theorem text?_normal (t : Tree) : (Form.text.normal t).text? = t.text? := by
  rw [Form.normal]

theorem CompositeKey.ofTree?_normal (t : Tree) :
    CompositeKey.ofTree? (compositeKeyForm.normal t) = CompositeKey.ofTree? t := by
  rw [compositeKeyForm, CompositeKey.ofTree?, textAt_assumed t rfl, itemsAt?_needed .text t rfl]
  exact bind_mapM_normal text?_normal _ _

theorem Model.ofTree?_normal (t : Tree) : Model.ofTree? (modelForm.normal t) = Model.ofTree? t := by
  rw [modelForm, Model.ofTree?, textAt_needed t rfl, itemsAt?_needed fieldForm t rfl,
    textAt_assumed t rfl, part?_optional CompositeKey.ofTree?_normal rfl t rfl]
  exact congrArg _ (funext fun _ => bind_mapM_normal Field.ofTree?_normal _ _)

theorem enumValue_normal (t : Tree) :
    textAt (enumValueForm.normal t) "name" 0 = textAt t "name" 0 :=
  textAt_needed t rfl

theorem Enumeration.ofDeclared?_normal (t : Tree) :
    Enumeration.ofDeclared? (declaredEnumForm.normal t) = Enumeration.ofDeclared? t := by
  rw [declaredEnumForm, Enumeration.ofDeclared?, textAt_needed t rfl,
    itemsAt?_needed enumValueForm t rfl]
  exact congrArg _ (funext fun _ => bind_mapM_normal enumValue_normal _ _)

theorem Enumeration.ofBuiltin?_normal (t : Tree) :
    Enumeration.ofBuiltin? (builtinEnumForm.normal t) = Enumeration.ofBuiltin? t := by
  rw [builtinEnumForm, Enumeration.ofBuiltin?, textAt_needed t rfl, itemsAt?_needed .text t rfl]
  exact congrArg _ (funext fun _ => bind_mapM_normal text?_normal _ _)

theorem TypeRef.ofTree?_normal (t : Tree) :
    TypeRef.ofTree? (typeRefForm.normal t) = TypeRef.ofTree? t := by
  rw [typeRefForm, TypeRef.ofTree?, wordAt_needed (Location.all.map Location.word) t rfl,
    textAt_needed t rfl, flagAt_assumed t rfl, ← TypeRef.ofTree?]

theorem InputField.ofTree?_normal (t : Tree) :
    InputField.ofTree? (inputFieldForm.normal t) = InputField.ofTree? t := by
  rw [inputFieldForm, InputField.ofTree?, textAt_needed t rfl, flagAt_assumed t rfl,
    itemsAt?_needed typeRefForm t rfl]
  exact congrArg _ (funext fun _ => bind_mapM_normal TypeRef.ofTree?_normal _ _)

theorem InputType.ofTree?_normal (t : Tree) :
    InputType.ofTree? (inputTypeForm.normal t) = InputType.ofTree? t := by
  rw [inputTypeForm, InputType.ofTree?, textAt_needed t rfl, itemsAt?_needed inputFieldForm t rfl]
  exact congrArg _ (funext fun _ => bind_mapM_normal InputField.ofTree?_normal _ _)

theorem Namespaces.ofTree?_normal {α : Type} {read : Tree → Option α} {item : Form}
    (same : ∀ t, read (item.normal t) = read t) (t : Tree) :
    Namespaces.ofTree? read ((namespacesForm item).normal t) = Namespaces.ofTree? read t := by
  rw [namespacesForm, Namespaces.ofTree?, itemsAt_assumed item t rfl, itemsAt_assumed item t rfl,
    mapM_map_normal same, mapM_map_normal same, ← Namespaces.ofTree?]

/-- A required part is there before and after. -/
theorem exists_needed {parts : List Part} {key : String} {place : Nat} {form : Form} {v : Value}
    (distinct : (parts.map (·.key)).Nodup) (ok : (Form.record parts).check v.tree = .ok ())
    (hp : parts[place]? = some (needed key form)) :
    ∃ a : Value, v.tree.part? key place = some a.tree ∧ form.check a.tree = .ok () ∧
      ((Form.record parts).normal v.tree).part? key place = some (form.normal a.tree) := by
  obtain ⟨a, there, checked⟩ := Json.exists_part distinct ok hp rfl
  have there : v.tree.part? key place = some a.tree := there
  refine ⟨a, there, checked, ?_⟩
  rw [part?_normal hp v.tree, there, Option.getD_some]

/-- What passes the check is read like its normal form. -/
theorem Document.ofTree?_normal {v : Value} (ok : documentForm.check v.tree = .ok ()) :
    Document.ofTree? (documentForm.normal v.tree) = Document.ofTree? v.tree := by
  obtain ⟨dataModel, hd, -, hd'⟩ :=
    exists_needed (by decide) ok (rfl : _[0]? = some (needed "datamodel" dataModelForm))
  obtain ⟨client, hc, checked, hc'⟩ :=
    exists_needed (by decide) ok (rfl : _[1]? = some (needed "schema" clientForm))
  obtain ⟨inputs, hi, -, hi'⟩ := exists_needed (by decide) checked
    (rfl : _[0]? = some (needed "inputObjectTypes" (namespacesForm inputTypeForm)))
  have models : itemsAt? (dataModelForm.normal dataModel.tree) "models" 0 =
      (itemsAt? dataModel.tree "models" 0).map (List.map modelForm.normal) :=
    itemsAt?_needed modelForm dataModel.tree rfl
  have enums : itemsAt (dataModelForm.normal dataModel.tree) "enums" 1 =
      (itemsAt dataModel.tree "enums" 1).map declaredEnumForm.normal :=
    itemsAt_assumed declaredEnumForm dataModel.tree rfl
  have enumTypes : (clientForm.normal client.tree).part? "enumTypes" 1 =
      some ((namespacesForm builtinEnumForm).normal
        ((client.tree.part? "enumTypes" 1).getD (Value.object []).tree)) :=
    part?_assumed (.object []) (namespacesForm builtinEnumForm) client.tree rfl
  rw [documentForm, Document.ofTree?, Document.ofTree?, hd, hd', hc, hc']
  simp only [Option.bind_eq_bind, Option.bind_some]
  rw [models, enums, mapM_map_normal Enumeration.ofDeclared?_normal,
    bind_mapM_normal Model.ofTree?_normal, enumTypes, clientForm, hi, hi', Option.bind_some,
    Option.bind_some, Namespaces.ofTree?_normal InputType.ofTree?_normal]
  dsimp only
  rw [Namespaces.ofTree?_normal Enumeration.ofBuiltin?_normal]
  -- absent enum types are the ones of an empty record
  cases client.tree.part? "enumTypes" 1 <;> rfl

/-! Every default passes its own check. -/

/-- A part of a sound form, whose default passes if there is one. -/
structure SoundPart (p : Part) : Prop where
  form : p.form.IsSound
  default : ∀ v, p.default? = some v → p.form.check v.tree = .ok ()

theorem soundPart_needed {key : String} {form : Form} (h : form.IsSound) :
    SoundPart (needed key form) := ⟨h, nofun⟩

theorem soundPart_assumed {key : String} {value : Value} {form : Form} (h : form.IsSound)
    (passes : form.check value.tree = .ok ()) : SoundPart (assumed key value form) := by
  refine ⟨h, fun v hv => ?_⟩
  obtain rfl := Option.some.inj hv
  exact passes

theorem isSound_record {parts : List Part} (distinct : (parts.map (·.key)).Nodup)
    (part : parts.Forall SoundPart) : (Form.record parts).IsSound := by
  have part := List.forall_iff_forall_mem.mp part
  exact .record distinct (fun p hp => (part p hp).default) (fun p hp => (part p hp).form)

theorem soundPart_text (key : String) : SoundPart (needed key .text) := soundPart_needed .text

theorem soundPart_flag (key : String) : SoundPart (assumed key (.flag false) .flag) :=
  soundPart_assumed .flag rfl

theorem soundPart_optional (key : String) {form : Form} (h : form.IsSound) :
    SoundPart (assumed key .null (.optional form)) := soundPart_assumed (.optional h) rfl

theorem soundPart_list (key : String) {item : Form} (h : item.IsSound) :
    SoundPart (needed key (.list item)) := soundPart_needed (.list h)

theorem soundPart_choice (key : String) (words : List String) :
    SoundPart (needed key (.choice words)) := soundPart_needed (.choice words)

theorem soundPart_emptyList (key : String) {item : Form} (h : item.IsSound) :
    SoundPart (assumed key (.array []) (.list item)) := soundPart_assumed (.list h) rfl

theorem isSound_fieldForm : fieldForm.IsSound :=
  isSound_record (by decide) ⟨soundPart_text _, soundPart_choice _ _, soundPart_text _,
    soundPart_optional _ .text, soundPart_flag _, soundPart_flag _, soundPart_flag _,
    soundPart_optional _ .text⟩

theorem isSound_compositeKeyForm : compositeKeyForm.IsSound :=
  isSound_record (by decide) ⟨soundPart_optional _ .text, soundPart_list _ .text⟩

theorem isSound_modelForm : modelForm.IsSound :=
  isSound_record (by decide) ⟨soundPart_text _, soundPart_list _ isSound_fieldForm,
    soundPart_optional _ isSound_compositeKeyForm, soundPart_optional _ .text⟩

theorem isSound_declaredEnumForm : declaredEnumForm.IsSound :=
  isSound_record (by decide) ⟨soundPart_text _,
    soundPart_list _ (isSound_record (by decide) (soundPart_text _))⟩

theorem isSound_dataModelForm : dataModelForm.IsSound :=
  isSound_record (by decide) ⟨soundPart_list _ isSound_modelForm,
    soundPart_emptyList _ isSound_declaredEnumForm⟩

theorem isSound_typeRefForm : typeRefForm.IsSound :=
  isSound_record (by decide) ⟨soundPart_text _, soundPart_choice _ _, soundPart_flag _⟩

theorem isSound_inputFieldForm : inputFieldForm.IsSound :=
  isSound_record (by decide) ⟨soundPart_text _, soundPart_flag _,
    soundPart_list _ isSound_typeRefForm⟩

theorem isSound_inputTypeForm : inputTypeForm.IsSound :=
  isSound_record (by decide) ⟨soundPart_text _, soundPart_list _ isSound_inputFieldForm⟩

theorem isSound_builtinEnumForm : builtinEnumForm.IsSound :=
  isSound_record (by decide) ⟨soundPart_text _, soundPart_list _ .text⟩

theorem isSound_namespacesForm {item : Form} (h : item.IsSound) : (namespacesForm item).IsSound :=
  isSound_record (show ["prisma", "model"].Nodup by decide)
    ⟨soundPart_emptyList _ h, soundPart_emptyList _ h⟩

theorem isSound_clientForm : clientForm.IsSound :=
  isSound_record (by decide)
    ⟨soundPart_needed (isSound_namespacesForm isSound_inputTypeForm),
      soundPart_assumed (isSound_namespacesForm isSound_builtinEnumForm) rfl⟩

theorem isSound_documentForm : documentForm.IsSound :=
  isSound_record (by decide)
    ⟨soundPart_needed isSound_dataModelForm, soundPart_needed isSound_clientForm⟩

/-! Reading -/

/-- What is read of a text depends on the value that it spells only. -/
theorem Document.read_eq_ok_iff {v : Value} {s : String} (h : v.Spells s) {d : Document} :
    Document.read s = .ok d ↔
      documentForm.check v.tree = .ok () ∧ Document.ofTree? v.tree = some d := by
  obtain ⟨rest, read, last⟩ := Json.readTree_spells h
  rw [check_documentForm, Document.read, readShaped, read]
  dsimp only
  cases documentShape v.tree with
  | error e => exact iff_of_false nofun (fun h => nomatch h.1)
  | ok u =>
    rw [last]
    cases Document.ofTree? v.tree with
    | none => exact iff_of_false nofun (fun h => nomatch h.2)
    | some d' => simp

/-- Only JSON is read. -/
theorem Document.exists_spells {s : String} {d : Document} (h : Document.read s = .ok d) :
    ∃ v : Value, v.Spells s := by
  unfold Document.read readShaped at h
  obtain ⟨t, rest, read⟩ : ∃ t rest, Json.readTree s.toList = (t, rest) := ⟨_, _, rfl⟩
  rw [read] at h
  dsimp only at h
  split at h
  · cases h
  · next checked =>
    by_cases last : (Json.skipSpace rest).isEmpty = true
    · rw [← check_documentForm] at checked
      exact Json.exists_spells read (documentForm.isStrict t checked) (List.isEmpty_iff.mp last)
    · rw [if_neg last] at h
      cases h

/-- A text that is read as a description spells a value. However that value is changed by orders of
members, members with unknown keys, and defaults that come or go, and whatever white space stands
between the tokens, the same description is read. A key is a text, so what is written with unpaired
surrogates is none. -/
theorem Document.read_tolerant {s : String} {d : Document} (h : Document.read s = .ok d) :
    (∃ v : Value, v.Spells s) ∧
    ∀ (v w : Value) (t : String), v.Spells s → Relation.ReflTransGen (Edit documentForm) v w →
      w.Spells t → Document.read t = .ok d := by
  refine ⟨Document.exists_spells h, ?_⟩
  intro v w t hv edits hw
  obtain ⟨checked, content⟩ := (Document.read_eq_ok_iff hv).mp h
  obtain ⟨checked', same⟩ := Edit.preserves_all isSound_documentForm edits checked
  refine (Document.read_eq_ok_iff hw).mpr ⟨checked', ?_⟩
  rw [← Document.ofTree?_normal checked', ← same, Document.ofTree?_normal checked, content]

/-- A key without escapes. -/
def plainKey (name : String) : List Glyph :=
  name.toList.filterMap fun c =>
    if h : 0x20 ≤ c.toNat ∧ c ≠ '"' ∧ c ≠ '\\' then some (.plain c h) else none

def noModels : Member := (plainKey "datamodel", .object [(plainKey "models", .array [])])

/-- A description without models. -/
def older : Value :=
  .object [noModels, (plainKey "schema", .object [(plainKey "inputObjectTypes", .object [])])]

/-- The same in another order, with a version and an empty list of input types. -/
def newer : Value := .object [
  (plainKey "schema", .object [
    (plainKey "inputObjectTypes", .object [(plainKey "prisma", .array [])])]),
  (plainKey "version", .array [.null]),
  noModels]

/-- A version comes in, the members change places, and a default is written out. -/
theorem edits_newer : Relation.ReflTransGen (Edit documentForm) older newer := by
  have insert : Edit documentForm older (.object [noModels, (plainKey "version", .array [.null]),
      (plainKey "schema", .object [(plainKey "inputObjectTypes", .object [])])]) :=
    @Edit.insert _ [noModels] _ _ "version" (.array [.null]) (by decide) (by decide)
  have permute : Edit documentForm (.object [noModels, (plainKey "version", .array [.null]),
      (plainKey "schema", .object [(plainKey "inputObjectTypes", .object [])])]) (.object [
        (plainKey "schema", .object [(plainKey "inputObjectTypes", .object [])]),
        (plainKey "version", .array [.null]), noModels]) := .permute (List.reverse_perm _).symm
  have add : Edit (namespacesForm inputTypeForm) (.object [])
      (.object [(plainKey "prisma", .array [])]) :=
    @Edit.add _ [] [] _ (assumed "prisma" (.array []) (.list inputTypeForm)) (.array [])
      (.head _) rfl (by decide) nofun
  have inClient : Edit clientForm (.object [(plainKey "inputObjectTypes", .object [])])
      (.object [(plainKey "inputObjectTypes", .object [(plainKey "prisma", .array [])])]) :=
    @Edit.inMember _ [] [] _ (needed "inputObjectTypes" (namespacesForm inputTypeForm)) _ _
      (.head _) (by decide) add
  exact .tail (.tail (.single insert) permute)
    (@Edit.inMember _ [] _ _ (needed "schema" clientForm) _ _ (.tail _ (.head _)) (by decide)
      inClient)

theorem Document.read_tolerant_newer :
    Document.read (older.written []) = .ok { models := [] } ∧
      Document.read (newer.written [' ']) = .ok { models := [] } := by
  have spells : older.Spells (older.written []) := older.spells_written nofun
  have read : Document.read (older.written []) = .ok { models := [] } :=
    (Document.read_eq_ok_iff spells).mpr ⟨by decide, by decide⟩
  have blank : ∀ c ∈ [' '], Json.isSpace c = true := List.forall_mem_singleton.mpr rfl
  exact ⟨read, (Document.read_tolerant read).2 older newer _ spells edits_newer
    (newer.spells_written blank)⟩

end GraphqlCrud.Schema
