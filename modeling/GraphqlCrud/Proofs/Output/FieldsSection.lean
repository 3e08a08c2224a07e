import GraphqlCrud.Proofs.Output.FieldEntries
/-!
The fields in the file of an object type. Their section has one entry for every field that is shown,
in the order of the model, and each entry tells all there is to tell about its field. In the file a
description that spans lines is moved in, like all code that does.
-/
namespace GraphqlCrud.Output.ModelObject

open Script Schema Text Layout

variable {config : CrudConfig} {f g : Field} {m : Model}

/-- What the entries of the fields tell up to the end of the section, and what comes after it. -/
def entries? (s : List Char) : Option (List FieldFacts × List Char) :=
  match after? "  \x7d),\n".toList s with
  | some rest => some ([], rest)
  | none => do
    let line ← after? "    ".toList s
    let (facts, line) ← entry? line
    let below ← after? "\n".toList line
    if below.length < s.length then
      let (more, rest) ← entries? below
      return (facts :: more, rest)
    else none
termination_by s.length

/-- What the section of the fields tells, and what comes after it. -/
def fieldFacts? (s : List Char) : Option (List FieldFacts × List Char) :=
  match after? "  fields: (t) => (\x7b\x7d),\n".toList s with
  | some rest => some ([], rest)
  | none => do entries? (← after? "  fields: (t) => (\x7b\n".toList s)

theorem entries?_ended {fields : List Field} (names : ∀ f ∈ fields, IsWord f.name)
    (config : CrudConfig) (description : Field → Option String) (rest : List Char) :
    entries? ((ended (fields.map fun f => "    " ++ entry config f (description f))).toList ++
      ("  \x7d),\n".toList ++ rest)) =
        some (fields.map fun f => .of config f (description f), rest) := by
  induction fields with
  | nil =>
    rw [List.map_nil, ended_nil, String.toList_empty, List.nil_append, entries?, after?_append]
    rfl
  | cons f fields ih =>
    obtain ⟨name, others⟩ := List.forall_mem_cons.mp names
    have line (below : List Char) :
        after? "  \x7d),\n".toList ("    ".toList ++ below) = none := rfl
    rw [List.map_cons, ended_cons, entries?]
    simp only [String.toList_append, List.append_assoc, line, Option.bind_eq_bind, Option.bind_some,
      after?_append, entry?_entry name, ih others, Option.pure_def, List.map_cons]
    -- What is below a line is shorter, by the line feed if by nothing else.
    have feed : "\n".toList.length = 1 := rfl
    apply if_pos
    simp only [List.length_append]
    omega

theorem fieldFacts?_fieldsWith (names : ∀ f ∈ m.fields, IsWord f.name) (shown : String → String)
    (config : CrudConfig) : fieldFacts? (fieldsWith shown config m).toList =
      some ((shownFields m).map fun f => .of config f ((fieldDescription f).map shown), []) := by
  rw [fieldsWith]
  split
  · next empty =>
    rw [empty]
    rfl
  · have words : ∀ f ∈ shownFields m, IsWord f.name :=
      fun f hf => names f (List.mem_of_mem_filter hf)
    have whole (lines : String) :
        ("  fields: (t) => (\x7b" ++ "\n" ++ lines ++ "  \x7d)," ++ "\n").toList =
          "  fields: (t) => (\x7b\n".toList ++ (lines.toList ++ ("  \x7d),\n".toList ++ [])) := by
      have opening : "  fields: (t) => (\x7b\n" = "  fields: (t) => (\x7b" ++ "\n" := by decide
      have closing : "  \x7d),\n" = "  \x7d)," ++ "\n" := by decide
      rw [List.append_nil, opening, closing]
      simp only [String.toList_append, List.append_assoc]
    have other (lines : List Char) : after? "  fields: (t) => (\x7b\x7d),\n".toList
        ("  fields: (t) => (\x7b\n".toList ++ lines) = none := rfl
    rw [whole, fieldFacts?, other]
    simp only [after?_append, Option.bind_eq_bind, Option.bind_some, entries?_ended words]

/-- What an entry tells is the same of both fields. -/
structure AreAlike (config : CrudConfig) (f g : Field) : Prop where
  name : f.name = g.name
  isRelation : f.isRelation = g.isRelation
  isRequired : f.isRequired = g.isRequired
  description : fieldDescription f = fieldDescription g
  isList : f.isRelation = false → f.isList = g.isList
  exposedType : f.isRelation = false → exposedType config f = exposedType config g

theorem AreAlike.of_facts (same : FieldFacts.of config f (fieldDescription f) =
    FieldFacts.of config g (fieldDescription g)) : AreAlike config f g := by
  obtain ⟨name, isRelation, description, exposed, isRequired⟩ := FieldFacts.mk.inj same
  have types (plain : f.isRelation = false) :
      (f.isList, ModelObject.exposedType config f) = (g.isList, ModelObject.exposedType config g) := by
    rw [← isRelation, plain] at exposed
    exact Option.some.inj exposed
  exact ⟨name, isRelation, isRequired, description, fun plain => (Prod.mk.inj (types plain)).1,
    fun plain => (Prod.mk.inj (types plain)).2⟩

/-- An entry as it is written tells about its field. -/
theorem entry?_of_entryOf? (name : IsWord f.name) {text : String}
    (h : entryOf? config f = some text) :
    entry? text.toList = some (.of config f (fieldDescription f), []) := by
  rw [entryOf?_eq config name] at h
  split at h
  · cases h
  · obtain rfl := Option.some.inj h
    simpa using entry?_entry name config (fieldDescription f) []

theorem map_entry?_filterMap (names : ∀ f ∈ m.fields, IsWord f.name) :
    (m.fields.filterMap (entryOf? config)).map (fun text => entry? text.toList) =
      (shownFields m).map fun f => some (.of config f (fieldDescription f), []) := by
  rw [filterMap_entryOf? config names, List.map_map]
  apply List.map_congr_left
  intro f hf
  have name := names f (List.mem_of_mem_filter hf)
  simpa using entry?_entry name config (fieldDescription f) []

/-- The file has an entry for each field that is shown, in their order, and an entry tells about its
field. -/
structure EntriesTell (config : CrudConfig) (m : Model) : Prop where
  inFile : ∃ fields, (file config m).render = fileStart m ++ fields ++ ("\x7d);" ++ "\n") ∧
    fieldFacts? fields.toList = some ((shownFields m).map fun f =>
      .of config f ((fieldDescription f).map shownText), [])
  rendered : (m.fields.filterMap (entryOf? config)).map (fun text => entry? text.toList) =
    (shownFields m).map fun f => some (.of config f (fieldDescription f), [])
  alike : ∀ f ∈ m.fields, ∀ g, isIdentifier g.name = true → ∀ text,
    entryOf? config f = some text → entryOf? config g = some text → AreAlike config f g

theorem entries_tell (config : CrudConfig) (names : ∀ f ∈ m.fields, isIdentifier f.name = true) :
    EntriesTell config m := by
  have words : ∀ f ∈ m.fields, IsWord f.name := fun f hf => .of_isIdentifier (names f hf)
  constructor
  case inFile =>
    exact ⟨fieldsWith shownText config m, render_eq_of_isWord words,
      fieldFacts?_fieldsWith words shownText config⟩
  case rendered => exact map_entry?_filterMap words
  case alike =>
    intro f hf g name text first second
    have read := entry?_of_entryOf? (words f hf) first
    have again := entry?_of_entryOf? (.of_isIdentifier name) second
    rw [read] at again
    exact .of_facts (Prod.mk.inj (Option.some.inj again)).1

def article : Model where
  name := "Article"
  fields := [
    { name := "id", kind := .scalar, type := "Int", isRequired := true, isId := true },
    { name := "labels", kind := .scalar, type := "String", isList := true,
      documentation := some "any,\r\nor none" },
    { name := "author", kind := .object, type := "User",
      documentation := some "\x60, nullable: false \x7d)," },
    { name := "secret", kind := .scalar, type := "String", documentation := some "@Pothos.omit()" }]

/-- The options that a description seems to go on with are its own text. -/
theorem entries_tell_article : (∀ f ∈ article.fields, isIdentifier f.name = true) ∧
    EntriesTell { mapsIds := true } article ∧
    ∃ fields, (file { mapsIds := true } article).render = fileStart article ++ fields ++ ("\x7d);" ++ "\n") ∧
      fieldFacts? fields.toList = some ([
        { name := "id", isRelation := false, description := none, exposed := some (false, "ID"),
          isRequired := true },
        { name := "labels", isRelation := false, description := some "any,\n  or none",
          exposed := some (true, "String"), isRequired := false },
        { name := "author", isRelation := true,
          description := some "\x60, nullable: false \x7d),", exposed := none,
          isRequired := false }], []) := by
  have names : ∀ f ∈ article.fields, isIdentifier f.name = true := by decide
  have told := entries_tell { mapsIds := true } names
  have facts : (shownFields article).map (fun f =>
      FieldFacts.of { mapsIds := true } f ((fieldDescription f).map shownText)) = [
        { name := "id", isRelation := false, description := none, exposed := some (false, "ID"),
          isRequired := true },
        { name := "labels", isRelation := false, description := some "any,\n  or none",
          exposed := some (true, "String"), isRequired := false },
        { name := "author", isRelation := true,
          description := some "\x60, nullable: false \x7d),", exposed := none,
          isRequired := false }] := by
    decide +kernel
  refine ⟨names, told, ?_⟩
  rw [← facts]
  exact told.inFile

end GraphqlCrud.Output.ModelObject
