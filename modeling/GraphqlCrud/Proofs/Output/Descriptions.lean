import GraphqlCrud.Proofs.Output.ObjectText
/-!
The descriptions of a model and of its fields, read back from the file that defines its object type.
-/
namespace GraphqlCrud.Output.ModelObject

open Script Schema Text Layout

variable {config : CrudConfig} {f : Field} {m : Model}

/-- The template that an entry holds for a description, and what stands before it. -/
def fieldTemplate (f : Field) (description : String) : Template :=
  { before := "    " ++ entryStart f ++ "description: ", value := description }

/-- The description of the model. -/
def ownTemplates (m : Model) : List Template :=
  (ownDescription m).toList.map fun d => { before := "  description: ", value := d }

/-- The descriptions of the shown fields, each as `shown` leaves it. -/
def fieldTemplates (shown : String → String) (m : Model) : List Template :=
  (shownFields m).filterMap fun f => (fieldDescription f).map fun d => fieldTemplate f (shown d)

variable {found : List Template}

theorem reads_entry (name : IsWord f.name) {description : Option String}
    (plain : ∀ d ∈ description, '\r' ∉ d.toList) :
    Reads { found } ("    " ++ entry config f description ++ "\n")
      { found := found ++ (description.map (fieldTemplate f)).toList } := by
  have margin : IsPlain "    " := by decide
  have closing : IsPlain " \x7d)," := by decide
  have start := margin.isFlat.append (isFlat_entryStart name)
  have rest := (isFlat_facts config f).append closing.isFlat
  cases description with
  | none =>
    have whole : "    " ++ entry config f none =
        "    " ++ entryStart f ++ (facts config f ++ " \x7d),") := by
      rw [entry, described, Option.elim_none, String.append_empty]
      simp only [String.append_assoc]
    rw [whole, Option.map_none, Option.toList_none, List.append_nil]
    exact (start.append rest).reads_line
  | some d =>
    have key : IsPlain "description: " := by decide
    have comma : IsPlain ", " := by decide
    have whole : "    " ++ entry config f (some d) ++ "\n" = "    " ++ entryStart f ++
        "description: " ++ templateLiteral d ++ (", " ++ (facts config f ++ " \x7d),")) ++
          "\n" := by
      rw [entry, described, Option.elim_some]
      simp only [String.append_assoc]
    rw [whole]
    have before := (start.append key.isFlat).reads "" found
    rw [String.empty_append] at before
    exact ((before.append (reads_templateLiteral (plain d rfl))).append
      ((comma.isFlat.append rest).reads "" _)).append reads_feed

theorem reads_fieldsText (h : IsClean m) : Reads { found } (fieldsText config m)
    { found := found ++ fieldTemplates hanging m } := by
  rw [fieldsText, fieldTemplates]
  split
  · next empty =>
    have line : IsPlain "  fields: (t) => (\x7b\x7d)," := by decide
    rw [empty, List.filterMap_nil, List.append_nil]
    exact line.isFlat.reads_line
  · have opening : IsPlain "  fields: (t) => (\x7b" := by decide
    have closing : IsPlain "  \x7d)," := by decide
    have each : ∀ f ∈ shownFields m, ∀ found, Reads { found }
        ("    " ++ entry config f ((fieldDescription f).map hanging) ++ "\n")
          { found := found ++
              ((fieldDescription f).map fun d => fieldTemplate f (hanging d)).toList } := by
      intro f hf found
      have member := List.mem_of_mem_filter hf
      have plain : ∀ d ∈ (fieldDescription f).map hanging, '\r' ∉ d.toList := by
        intro d hd
        obtain ⟨d, own, rfl⟩ := Option.map_eq_some_iff.mp hd
        rw [hanging, String.toList_ofList]
        intro ret
        rcases mem_shift ret with ret | ret
        · exact DocComment.notMem_description (h.returnless_field f member) d own ret
        · cases ret
      have read : Reads { found }
          ("    " ++ entry config f ((fieldDescription f).map hanging) ++ "\n")
            { found := found ++ (((fieldDescription f).map hanging).map (fieldTemplate f)).toList } :=
        reads_entry (h.isWord_field f member) plain
      rwa [Option.map_map] at read
    rw [List.filterMap_eq_flatMap_toList]
    exact ((opening.isFlat.reads_line.append (reads_ended each)).append
      (closing.isFlat.reads "" _)).append reads_feed

theorem reads_ownText (h : IsClean m) : Reads { found } (ownText (ownDescription m))
    { found := found ++ ownTemplates m } := by
  rw [ownTemplates]
  cases own : ownDescription m with
  | none =>
    rw [Option.toList_none, List.map_nil, List.append_nil]
    rfl
  | some d =>
    have plain : '\r' ∉ d.toList := DocComment.notMem_description h.returnless d own
    have key : IsPlain "  description: " := by decide
    have comma : IsPlain "," := by decide
    have before := key.isFlat.reads "" found
    rw [String.empty_append] at before
    rw [ownText, Option.elim_some]
    exact ((before.append (reads_templateLiteral plain)).append (comma.isFlat.reads "" _)).append
      reads_feed

/-- What the file says in its templates: the model's description as it is, and those of the fields
with their lines below the first moved in. -/
theorem templates?_file (h : IsClean m) : templates? (file config m).render =
    some (ownTemplates m ++ fieldTemplates hanging m) := by
  have imports : IsFlat
      ("import \x7b definePrismaObject \x7d from " ++ singleQuoted "../utils" ++ ";") := by
    have first : IsPlain "import \x7b definePrismaObject \x7d from " := by decide
    have last : IsPlain ";" := by decide
    exact (first.isFlat.append (isFlat_singleQuoted _)).append last.isFlat
  have head : IsFlat ("export const " ++ m.name ++ "Object = definePrismaObject(" ++
      singleQuoted m.name ++ ", \x7b") := by
    have exported : IsPlain "export const " := by decide
    have called : IsPlain "Object = definePrismaObject(" := by decide
    have opening : IsPlain ", \x7b" := by decide
    exact (((exported.isFlat.append (isFlat_of_isWord h.isWord)).append called.isFlat).append
      (isFlat_singleQuoted _)).append opening.isFlat
  have last : IsPlain "\x7d);" := by decide
  have text : Reads {} (file config m).render
      { found := [] ++ ownTemplates m ++ fieldTemplates hanging m } := by
    rw [render_eq h]
    exact (imports.reads_line.append reads_feed).append
      (((head.reads_line.append (reads_ownText h)).append (reads_fieldsText h)).append
        last.isFlat.reads_line)
  exact text.templates?_eq

theorem fieldTemplates_hanging_iff (m : Model) : fieldTemplates hanging m = fieldTemplates id m ↔
    ∀ f ∈ shownFields m, ∀ d ∈ fieldDescription f, '\n' ∉ d.toList := by
  rw [fieldTemplates, fieldTemplates]
  induction shownFields m with
  | nil => simp
  | cons f rest ih =>
    rw [List.forall_mem_cons, ← ih]
    cases own : fieldDescription f with
    | none => simp [own]
    | some d =>
      have kept := hanging_eq_self_iff (DocComment.isSolid_description _ d own)
      simp [own, fieldTemplate, kept]

/-- The file holds the model's description as it is, and the description of a shown field with
every line below the first moved in: so what the comments say, exactly when no shown field has a
description that spans lines. -/
theorem descriptions_survive_iff (h : IsClean m) :
    templates? (file config m).render = some (ownTemplates m ++ fieldTemplates hanging m) ∧
      (templates? (file config m).render = some (ownTemplates m ++ fieldTemplates id m) ↔
        ∀ f ∈ shownFields m, ∀ d ∈ fieldDescription f, '\n' ∉ d.toList) := by
  refine ⟨templates?_file h, ?_⟩
  rw [templates?_file h, Option.some_inj, List.append_cancel_left_eq, fieldTemplates_hanging_iff]

theorem isClean_of_isIdentifier (name : isIdentifier m.name = true)
    (fields : ∀ f ∈ m.fields, isIdentifier f.name = true)
    (own : ∀ text ∈ m.documentation, '\r' ∉ text.toList)
    (each : ∀ f ∈ m.fields, ∀ text ∈ f.documentation, '\r' ∉ text.toList) : IsClean m where
  isWord := .of_isIdentifier name
  isWord_field := fun f hf => .of_isIdentifier (fields f hf)
  returnless := own
  returnless_field := each

def account : Model where
  name := "Account"
  fields := [
    { name := "id", kind := .scalar, type := "Int", documentation := some "The \x60key\x60" },
    { name := "secret", kind := .scalar, type := "String",
      documentation := some "one\ntwo @Pothos.omit()" }]
  documentation := some "  Costs $\x7bamount\x7d\n\n  and \\ more\n"

theorem account_descriptions : IsClean account ∧ templates? (file {} account).render =
    some [⟨"  description: ", "Costs $\x7bamount\x7d\n\n  and \\ more"⟩,
      ⟨"    id: t.expose(\"id\", \x7b description: ", "The \x60key\x60"⟩] := by
  have clean : IsClean account :=
    isClean_of_isIdentifier (by decide) (by decide) (by decide) (by decide)
  have said : ownTemplates account ++ fieldTemplates id account =
      [⟨"  description: ", "Costs $\x7bamount\x7d\n\n  and \\ more"⟩,
        ⟨"    id: t.expose(\"id\", \x7b description: ", "The \x60key\x60"⟩] := by
    decide +kernel
  have single : ∀ f ∈ shownFields account, ∀ d ∈ fieldDescription f, '\n' ∉ d.toList := by
    decide +kernel
  refine ⟨clean, ?_⟩
  rw [← said]
  exact (descriptions_survive_iff clean).2.mpr single

def user : Model where
  name := "User"
  fields := [
    { name := "id", kind := .scalar, type := "Int", documentation := some "line one\nline two" }]

/-- The second line of a field's description comes back with two more spaces. -/
theorem user_description_moved : IsClean user ∧
    templates? (file {} user).render =
      some [⟨"    id: t.expose(\"id\", \x7b description: ", "line one\n  line two"⟩] ∧
    templates? (file {} user).render ≠ some (ownTemplates user ++ fieldTemplates id user) := by
  have clean : IsClean user :=
    isClean_of_isIdentifier (by decide) (by decide) (by decide) (by decide)
  have moved : ownTemplates user ++ fieldTemplates hanging user =
      [⟨"    id: t.expose(\"id\", \x7b description: ", "line one\n  line two"⟩] := by
    decide +kernel
  have said : ownTemplates user ++ fieldTemplates id user =
      [⟨"    id: t.expose(\"id\", \x7b description: ", "line one\nline two"⟩] := by
    decide +kernel
  rw [templates?_file clean, moved, said]
  exact ⟨clean, rfl, by decide⟩

end GraphqlCrud.Output.ModelObject
