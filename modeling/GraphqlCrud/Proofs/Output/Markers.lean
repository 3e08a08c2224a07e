import Mathlib.Data.List.Nodup
import GraphqlCrud.Proofs.Inputs.Omission
import GraphqlCrud.Proofs.Output.ObjectText
import GraphqlCrud.Proofs.Script.LineFeeds
/-!
What the markers on a field of a model do, in the file that defines the object type of the model and
in the declarations of its inputs.
-/
namespace GraphqlCrud.Output

open Schema Script Text Layout

namespace ModelObject

/-- The field in that place has an entry under its name, between those of the fields around it, in
the text of the file. -/
def HasEntry (config : CrudConfig) (m : Model) (before : List Field) (f : Field)
    (after : List Field) : Prop :=
  ∃ line, begins (f.name ++ ": t.") line = true ∧ (file config m).render = (fileWith m
    (codeOf (before.filterMap (entryOf? config) ++ line :: after.filterMap (entryOf? config)))).render

/-! What the code of the fields adds to the file -/

variable {m : Model} {code : String}

theorem feeds_optionsWith (solid : IsSolid code) : feeds (optionsWith m code).multiline =
    feeds (ended (renderedLines
      (((ownDescription m).toList.map (Member.template "description")).flatMap Member.blocks))) +
        feeds code + 2 := by
  have key : feeds "fields: " = 0 := rfl
  have arrow : feeds "(t) => " = 0 := rfl
  have comma : feeds "," = 0 := rfl
  rw [feeds_multiline (memberBlocks_optionsWith_ne_nil m code), memberBlocks_optionsWith,
    renderedLines_append, ended_append, feeds_append, feeds_codeBetween (solid.append _),
    feeds_append, key, arrow, comma]
  omega

theorem feeds_value (m : Model) (code : String) : feeds (definitionWith m code).value =
    feeds (singleQuoted m.name) + feeds (optionsWith m code).multiline := by
  have called : feeds "definePrismaObject(" = 0 := rfl
  have comma : feeds ", " = 0 := rfl
  have closing : feeds ")" = 0 := rfl
  rw [value_definitionWith, feeds_append, feeds_append, feeds_append, feeds_append, called, comma,
    closing]
  omega

/-- The file has the line feeds of the code, and those around it. -/
theorem exists_feeds_render (m : Model) : ∃ around, ∀ code, IsSolid code →
    feeds (fileWith m code).render = around + feeds code := by
  refine ⟨feeds (file {} m).importsText + feeds ("export const " ++ m.name ++ "Object = ") +
    feeds (singleQuoted m.name) + feeds (ended (renderedLines
      (((ownDescription m).toList.map (Member.template "description")).flatMap Member.blocks))) + 4,
    fun code solid => ?_⟩
  have feed : feeds "\n" = 1 := rfl
  have semicolon : feeds ";" = 0 := rfl
  rw [render_fileWith, importsText_fileWith, head_definitionWith, feeds_append, feeds_append,
    feeds_codeBetween (isSolid_value m code), feeds_value, feeds_optionsWith solid, feed, semicolon]
  omega

theorem feeds_codeOf {entries : List String} (filled : entries ≠ []) :
    feeds (codeOf entries) = feeds (ended (entries.map ("  " ++ ·))) + 1 := by
  have opening : feeds ("(\x7b" ++ "\n") = 1 := rfl
  have closing : feeds "\x7d)" = 0 := rfl
  rw [codeOf_eq filled, feeds_append, feeds_append, opening, closing]
  omega

/-- One more entry takes at least one more line. -/
theorem feeds_codeOf_lt (first second : List String) (line : String) :
    feeds (codeOf (first ++ second)) < feeds (codeOf (first ++ line :: second)) := by
  have grown : first ++ line :: second ≠ [] := by simp
  rw [feeds_codeOf grown]
  by_cases filled : first ++ second = []
  · have none : feeds (codeOf []) = 0 := rfl
    rw [filled, none]
    omega
  · rw [feeds_codeOf filled, List.map_append, List.map_append, List.map_cons, ended_append,
      ended_append, feeds_append, feeds_append, feeds_ended_cons]
    omega

theorem render_insert_ne (m : Model) (first second : List String) (line : String) :
    (fileWith m (codeOf (first ++ second))).render ≠
      (fileWith m (codeOf (first ++ line :: second))).render := by
  intro same
  obtain ⟨around, total⟩ := exists_feeds_render m
  have sizes := congrArg feeds same
  rw [total _ (isSolid_codeOf _), total _ (isSolid_codeOf _)] at sizes
  have more := feeds_codeOf_lt first second line
  omega

variable {config : CrudConfig} {before after : List Field} {f : Field}

theorem entryOf?_eq_none_iff : entryOf? config f = none ↔ f.omission.omitsObject = true := by
  rw [entryOf?, Field.omission]
  dsimp only
  split
  · next omitted => exact iff_of_true rfl omitted
  · next shown => exact iff_of_false (Option.some_ne_none _) shown

theorem begins_of_entryOf? {line : String} (h : entryOf? config f = some line) :
    begins (f.name ++ ": t.") line = true := by
  rw [entryOf?] at h
  dsimp only at h
  split at h
  · cases h
  · obtain rfl := Option.some.inj h
    simp only [String.append_assoc]
    exact begins_iff.mpr ⟨_, String.append_assoc.symm⟩

theorem hasEntry_iff (fields : m.fields = before ++ f :: after) :
    HasEntry config m before f after ↔ f.omission.omitsObject = false := by
  rw [HasEntry, file_eq_fileWith, fieldsCode_eq_codeOf, fields, List.filterMap_append]
  cases entry : entryOf? config f with
  | none =>
    have omitted := entryOf?_eq_none_iff.mp entry
    rw [List.filterMap_cons_none entry]
    refine iff_of_false ?_ (by rw [omitted]; exact nofun)
    rintro ⟨line, -, same⟩
    exact render_insert_ne m _ _ line same
  | some line =>
    have shown : f.omission.omitsObject = false := by
      refine Bool.eq_false_iff.mpr fun omitted => ?_
      rw [entryOf?_eq_none_iff.mpr omitted] at entry
      cases entry
    rw [List.filterMap_cons_some entry]
    exact iff_of_true ⟨line, begins_of_entryOf? entry, rfl⟩ shown

/-- A field that is left out of the object type might as well not be there. -/
theorem file_of_omitted (fields : m.fields = before ++ f :: after)
    (omitted : f.omission.omitsObject = true) :
    file config m = file config { m with fields := before ++ after } := by
  have entries : m.fields.filterMap (entryOf? config) =
      (before ++ after).filterMap (entryOf? config) := by
    rw [fields, List.filterMap_append, List.filterMap_cons_none (entryOf?_eq_none_iff.mpr omitted),
      List.filterMap_append]
  have code : fieldsCode config m = fieldsCode config { m with fields := before ++ after } := by
    rw [fieldsCode_eq_codeOf, entries, fieldsCode_eq_codeOf]
  rw [file, file, definition, definition, code]

end ModelObject

open ModelObject Inputs

/-- What is to be said of a field whose comment holds markers, the first of its name in its model. -/
structure HonoursMarkers (document : Document) (config : Config) (m : Model) (before : List Field)
    (f : Field) (after : List Field) : Prop where
  /-- The object type has an entry for the field unless it is omitted everywhere. -/
  hasEntry : HasEntry config.crud m before f after ↔ f.omission.omitsObject = false
  file : f.omission.omitsObject = true →
    file config.crud m = file config.crud { m with fields := before ++ after }
  /-- A field that is omitted everywhere is in no input of the model. -/
  everywhere : f.omission.omitsObject = true → ∀ d ∈ select document config,
    owner? document d.name = some m → ∀ x ∈ d.fields, x.name ≠ f.name
  listed : ∀ d ∈ select document config, owner? document d.name = some m →
    ∀ c ∈ d.category, f.omission.omitsInput c = true → ∀ x ∈ d.fields, x.name ≠ f.name
  /-- But for the declarations of the model in omitted categories, the comment makes no difference
  if it does not omit the field everywhere. -/
  elsewhere : f.omission.omitsObject = false → List.Forall₂ (fun d bare =>
      (owner? document d.name = some m ∧ ∃ c ∈ d.category, f.omission.omitsInput c = true) ∨
        bare = d)
    (select document config)
    (select (document.replace (m.withFieldAt before f.bare after)) config)

/-- Markers are honoured from the comment of a field to the object type and the inputs. -/
theorem markers_honoured {document : Document}
    (distinct : (document.models.map (·.name)).Nodup) {m : Model} (member : m ∈ document.models)
    {before after : List Field} {f : Field} (places : m.Places before f after) (config : Config) :
    HonoursMarkers document config m before f after where
  hasEntry := hasEntry_iff places.fields
  file := file_of_omitted places.fields
  everywhere := by
    intro omitted d hd owned x hx
    obtain ⟨⟨input, name⟩, -, rfl⟩ := List.mem_map.mp hd
    exact ne_of_mem_fields_declare places owned (hides_of_omitsObject omitted _) hx
  listed := by
    intro d hd owned c hc omitted x hx
    obtain ⟨⟨input, name⟩, -, rfl⟩ := List.mem_map.mp hd
    have category : categoryOf? (owner? document name) name = some c := hc
    have hidden : hides f.omission (categoryOf? (owner? document name) name) = true := by
      rw [category]
      exact omitted
    exact ne_of_mem_fields_declare places owned hidden hx
  elsewhere := by
    intro shown
    rw [select, select, chosen_replace, List.forall₂_map_left_iff, List.forall₂_map_right_iff,
      List.forall₂_same]
    rintro ⟨input, name⟩ -
    by_cases owned : owner? document name = some m
    · cases hidden : hides f.omission (categoryOf? (owner? document name) name) with
      | false => exact .inr (declare_bare places owned hidden input)
      | true =>
        cases category : categoryOf? (owner? document name) name with
        | none =>
          rw [category, hides, shown] at hidden
          cases hidden
        | some c =>
          rw [category] at hidden
          exact .inl ⟨owned, c, category, hidden⟩
    · refine .inr (declare_replace_other ?_ input)
      intro old found same
      have old_member := (List.mem_filter.mp (mem_of_greatestBy found)).1
      have same : old = m := List.inj_on_of_nodup_map distinct old_member member same
      exact owned (same ▸ found)

def creation : Field where
  name := "created"
  kind := .scalar
  type := "DateTime"
  documentation := some "@Pothos.omit(create, nonsense)When @Pothos.omit(update) it was made"

def secret : Field where
  name := "secret"
  kind := .scalar
  type := "String"
  documentation := some "A key @Pothos.omit(create) @Pothos.omit( , )"

def post : Model where
  name := "Post"
  fields := [{ name := "id", kind := .scalar, type := "Int" }, secret, creation]

/-- Two models, of which one has fields that are left out, and inputs of theirs with and without a
category. -/
def postDocument : Document where
  models := [post, { name := "PostMeta", fields := [creation] }]
  inputTypes := { client :=
    ["PostCreateInput", "PostWhereInput", "PostUpsertInput", "PostMetaWhereInput"].map fun name =>
      { name, fields := ["created", "secret"].map fun field =>
        { name := field, accepts := [{ name := "String", location := .scalar }] } } }

theorem markers_honoured_post :
    HonoursMarkers postDocument {} post [{ name := "id", kind := .scalar, type := "Int" }] secret
      [creation] ∧
    HonoursMarkers postDocument {} post [{ name := "id", kind := .scalar, type := "Int" }, secret]
      creation [] ∧
    (select postDocument {}).map (fun d => (d.name, d.fields.map (·.name))) =
      [("PostCreateInput", []), ("PostWhereInput", ["created"]), ("PostUpsertInput", ["created"]),
        ("PostMetaWhereInput", ["created", "secret"])] := by
  have distinct : (postDocument.models.map (·.name)).Nodup := by decide
  have member : post ∈ postDocument.models := List.mem_cons_self
  exact ⟨markers_honoured distinct member ⟨rfl, by decide⟩ {},
    markers_honoured distinct member ⟨rfl, by decide⟩ {}, by decide +kernel⟩

end GraphqlCrud.Output
