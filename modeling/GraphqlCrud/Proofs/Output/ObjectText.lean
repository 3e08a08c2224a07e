import GraphqlCrud.Output.ModelObject
import GraphqlCrud.Proofs.DocComment
import GraphqlCrud.Proofs.Script.Code
import GraphqlCrud.Proofs.Script.Sections
import GraphqlCrud.Proofs.Script.Templates
/-!
The text of the file that defines the object type of a model.
-/
namespace GraphqlCrud.Output.ModelObject

open Script Schema Text Layout

/-- The fields that have an entry. -/
def shownFields (m : Model) : List Field :=
  m.fields.filter fun f => !(DocComment.parse f.documentation).omission.omitsObject

def method (f : Field) : String := if f.isRelation then "relation" else "expose"

/-- An entry up to what it says about its field. -/
def entryStart (f : Field) : String :=
  f.name ++ ": t." ++ method f ++ "(" ++ doubleQuoted f.name ++ ", \x7b "

/-- A description as the first of several options. -/
def described (description : Option String) : String :=
  description.elim "" fun d => "description: " ++ templateLiteral d ++ ", "

/-- The type under which a field is exposed, as an option writes it. -/
def typeText (config : CrudConfig) (f : Field) : String :=
  if f.isList then "[" ++ doubleQuoted (exposedType config f) ++ "]"
  else doubleQuoted (exposedType config f)

/-- The options of an entry after the description. -/
def facts (config : CrudConfig) (f : Field) : String :=
  (if f.isRelation then "" else "type: " ++ typeText config f ++ ", ") ++
    "nullable: " ++ flagText (!f.isRequired)

def entry (config : CrudConfig) (f : Field) (description : Option String) : String :=
  entryStart f ++ described description ++ facts config f ++ " \x7d),"

def fieldDescription (f : Field) : Option String := (DocComment.parse f.documentation).description

theorem inline_description (d : String) :
    (Member.template "description" d).inline = "description: " ++ templateLiteral d := by
  rw [Member.template, inline_property (by decide) (by simp [isShorthand]), Expr.inline]
  rfl

def typeOption (config : CrudConfig) (f : Field) : Member :=
  if f.isList then .property "type" (.array (.ofTexts [exposedType config f]))
  else .text "type" (exposedType config f)

theorem inline_typeOption (config : CrudConfig) (f : Field) :
    (typeOption config f).inline = "type: " ++ typeText config f := by
  rw [typeOption, typeText]
  cases f.isList with
  | true =>
    rw [if_pos rfl, if_pos rfl, inline_property (by decide) (by simp [isShorthand]), Expr.inline,
      ArrayLiteral.inline]
    simp [ArrayLiteral.ofTexts, Element.written, ArrayLiteral.constMark]
  | false =>
    rw [if_neg Bool.false_ne_true, if_neg Bool.false_ne_true, Member.text,
      inline_property (by decide) (by simp [isShorthand]), Expr.inline]
    rfl

theorem options_eq (config : CrudConfig) (f : Field) (description : Option String) :
    options config f description =
      (description.toList.map (.template "description") ++
        if f.isRelation then [] else [typeOption config f]) ++
          [.flag "nullable" (!f.isRequired)] := by
  rw [options, typeOption]
  cases f.isRelation <;> simp

theorem inline_options (config : CrudConfig) (f : Field) (description : Option String) :
    (options config f description).inline =
      "\x7b " ++ described description ++ facts config f ++ " \x7d" := by
  have first : String.join ((description.toList.map (Member.template "description")).map
      fun m => m.inline ++ ", ") = described description := by
    cases description with
    | none => rfl
    | some d => simp [described, inline_description]
  have second : String.join ((if f.isRelation then [] else [typeOption config f]).map
      fun m => m.inline ++ ", ") =
        if f.isRelation then "" else "type: " ++ typeText config f ++ ", " := by
    cases f.isRelation with
    | true => rfl
    | false => simp [inline_typeOption]
  have nullable : (Member.flag "nullable" (!f.isRequired)).inline =
      "nullable: " ++ flagText (!f.isRequired) := by
    rw [inline_flag (by decide) (by decide)]
    rfl
  rw [options_eq, ObjectLiteral.inline, inlineObject_concat, List.map_append, String.join_append,
    first, second, nullable, facts]
  simp only [String.append_assoc]

theorem entryOf?_eq (config : CrudConfig) {f : Field} (name : IsWord f.name) : entryOf? config f =
    if (DocComment.parse f.documentation).omission.omitsObject then none
    else some (entry config f (fieldDescription f)) := by
  have opening : ", \x7b " = ", " ++ "\x7b " := by decide
  have closing : " \x7d)," = " \x7d" ++ ")," := by decide
  rw [entryOf?]
  split
  · rfl
  · rw [inline_options, entry, entryStart, doubleQuoted_word name, opening, closing, method,
      fieldDescription]
    simp only [String.append_assoc]
    rfl

theorem filterMap_entryOf? (config : CrudConfig) {m : Model}
    (names : ∀ f ∈ m.fields, IsWord f.name) : m.fields.filterMap (entryOf? config) =
      (shownFields m).map fun f => entry config f (fieldDescription f) := by
  rw [shownFields, ← List.filterMap_eq_map, List.filterMap_filter]
  apply List.filterMap_congr
  intro f hf
  rw [entryOf?_eq config (names f hf)]
  cases (DocComment.parse f.documentation).omission.omitsObject <;> rfl

/-- The names of the model are words, and its comments hold no carriage return. -/
structure IsClean (m : Model) : Prop where
  isWord : IsWord m.name
  isWord_field : ∀ f ∈ m.fields, IsWord f.name
  returnless : ∀ text ∈ m.documentation, '\r' ∉ text.toList
  returnless_field : ∀ f ∈ m.fields, ∀ text ∈ f.documentation, '\r' ∉ text.toList

variable {config : CrudConfig} {f : Field} {m : Model}

theorem isFlat_entryStart (name : IsWord f.name) : IsFlat (entryStart f) := by
  have call : IsPlain (method f) := by
    unfold method
    split <;> decide
  have exposing : IsPlain ": t." := by decide
  have opening : IsPlain "(" := by decide
  have options : IsPlain ", \x7b " := by decide
  exact (((((isFlat_of_isWord name).append exposing.isFlat).append call.isFlat).append
    opening.isFlat).append (isFlat_doubleQuoted _)).append options.isFlat

theorem isFlat_typeText (config : CrudConfig) (f : Field) : IsFlat (typeText config f) := by
  have opening : IsPlain "[" := by decide
  have closing : IsPlain "]" := by decide
  unfold typeText
  split
  · exact (opening.isFlat.append (isFlat_doubleQuoted _)).append closing.isFlat
  · exact isFlat_doubleQuoted _

theorem isFlat_facts (config : CrudConfig) (f : Field) : IsFlat (facts config f) := by
  have nothing : IsPlain "" := by decide
  have type : IsPlain "type: " := by decide
  have comma : IsPlain ", " := by decide
  have nullable : IsPlain "nullable: " := by decide
  have flag : IsPlain (flagText (!f.isRequired)) := by
    cases f.isRequired <;> decide
  have typed : IsFlat (if f.isRelation then "" else "type: " ++ typeText config f ++ ", ") := by
    split
    · exact nothing.isFlat
    · exact (type.isFlat.append (isFlat_typeText config f)).append comma.isFlat
  exact (typed.append nullable.isFlat).append flag.isFlat

/-- In an entry that hangs, it is the description that hangs. -/
theorem hanging_entry (name : IsWord f.name) {description : Option String}
    (solid : ∀ d ∈ description, IsSolid d) : hanging (entry config f description) =
      entry config f (description.map hanging) := by
  have start := (isFlat_entryStart name).isLine.unbroken
  have rest : '\n' ∉ (facts config f ++ " \x7d),").toList :=
    notMem_append (isFlat_facts config f).isLine.unbroken (by decide)
  cases description with
  | none =>
    have whole : entry config f none = entryStart f ++ (facts config f ++ " \x7d),") := by
      rw [entry, described, Option.elim_none, String.append_empty, String.append_assoc]
    rw [Option.map_none, whole, hanging_of_unbroken (notMem_append start rest)]
  | some d =>
    have whole (d : String) : entry config f (some d) = entryStart f ++ ("description: " ++
        (templateLiteral d ++ (", " ++ (facts config f ++ " \x7d),")))) := by
      rw [entry, described, Option.elim_some]
      simp only [String.append_assoc]
    rw [Option.map_some, whole, whole, hanging_append start, hanging_append (by decide),
      hanging_templateLiteral (solid d rfl), hanging_append (by decide), hanging_of_unbroken rest]

theorem isSolid_entry (config : CrudConfig) (f : Field) (description : Option String) :
    IsSolid (entry config f description) :=
  IsSolid.append ⟨[' ', '\x7d', ')'], ',', by decide, by decide⟩ _

/-- In an entry, it is the description that loses carriage returns. -/
theorem unreturned_entry (name : IsWord f.name) (description : Option String) :
    unreturned (entry config f description) = entry config f (description.map unreturned) := by
  have start := (isFlat_entryStart name).isLine.returnless
  have rest : '\r' ∉ (facts config f ++ " \x7d),").toList :=
    notMem_append (isFlat_facts config f).isLine.returnless (by decide)
  cases description with
  | none =>
    have whole : entry config f none = entryStart f ++ (facts config f ++ " \x7d),") := by
      rw [entry, described, Option.elim_none, String.append_empty, String.append_assoc]
    rw [Option.map_none, whole, unreturned_of_returnless (notMem_append start rest)]
  | some d =>
    have whole (d : String) : entry config f (some d) = entryStart f ++ ("description: " ++
        (templateLiteral d ++ (", " ++ (facts config f ++ " \x7d),")))) := by
      rw [entry, described, Option.elim_some]
      simp only [String.append_assoc]
    rw [Option.map_some, whole, whole, unreturned_append_left start,
      unreturned_append_left (by decide), (isSolid_templateLiteral d).unreturned_append,
      unreturned_templateLiteral, unreturned_append_left (by decide), unreturned_of_returnless rest]

/-- The entries one below the other, each with what its field's comment says. -/
def entries (config : CrudConfig) (m : Model) : List String :=
  (shownFields m).map fun f => entry config f (fieldDescription f)

/-- The code of the fields that has these entries. -/
def codeOf (entries : List String) : String :=
  match entries with
  | [] => "(\x7b\x7d)"
  | entries => "(\x7b\n" ++ "\n".intercalate (entries.map ("  " ++ ·)) ++ "\n\x7d)"

theorem fieldsCode_eq_codeOf (config : CrudConfig) (m : Model) :
    fieldsCode config m = codeOf (m.fields.filterMap (entryOf? config)) := rfl

theorem codeOf_eq {entries : List String} (filled : entries ≠ []) : codeOf entries =
    "(\x7b" ++ "\n" ++ ended (entries.map ("  " ++ ·)) ++ "\x7d)" := by
  obtain ⟨init, last, rfl⟩ := (List.eq_nil_or_concat' entries).resolve_left filled
  have opening : "(\x7b\n" = "(\x7b" ++ "\n" := by decide
  have closing : "\n\x7d)" = "\n" ++ "\x7d)" := by decide
  rw [codeOf, List.map_append, List.map_singleton, ended_append_singleton, opening, closing]
  · simp only [String.append_assoc]
  · exact filled

theorem fieldsCode_eq (names : ∀ f ∈ m.fields, IsWord f.name) :
    fieldsCode config m = codeOf (entries config m) := by
  rw [fieldsCode_eq_codeOf, filterMap_entryOf? config names, entries]

theorem isSolid_codeOf (entries : List String) : IsSolid (codeOf entries) := by
  by_cases filled : entries = []
  · rw [filled]
    exact ⟨['(', '\x7b', '\x7d'], ')', by decide, by decide⟩
  · rw [codeOf_eq filled]
    exact IsSolid.append ⟨['\x7d'], ')', by decide, by decide⟩ _

theorem isSolid_fieldsCode (config : CrudConfig) (m : Model) : IsSolid (fieldsCode config m) :=
  isSolid_codeOf _

/-- A description where it stands in the file: the code of the fields is read line by line, moved in,
and read line by line again as a part of the definition. -/
def shownText (description : String) : String := unreturned (hanging (unreturned description))

/-- The fields of the model where they stand in the file, each with its description as `shown` leaves
it. -/
def fieldsWith (shown : String → String) (config : CrudConfig) (m : Model) : String :=
  if shownFields m = [] then "  fields: (t) => (\x7b\x7d)," ++ "\n"
  else "  fields: (t) => (\x7b" ++ "\n" ++ ended ((shownFields m).map fun f =>
    "    " ++ entry config f ((fieldDescription f).map shown)) ++ "  \x7d)," ++ "\n"

/-- The fields of the model one level in, where they stand in the file. -/
def fieldsText (config : CrudConfig) (m : Model) : String :=
  if shownFields m = [] then "  fields: (t) => (\x7b\x7d)," ++ "\n"
  else "  fields: (t) => (\x7b" ++ "\n" ++ ended ((shownFields m).map fun f =>
    "    " ++ entry config f ((fieldDescription f).map hanging)) ++ "  \x7d)," ++ "\n"

/-- Where the comments hold no carriage return, a description only moves in. -/
theorem fieldsWith_shownText (h : IsClean m) : fieldsWith shownText config m = fieldsText config m := by
  have moved : (shownFields m).map (fun f =>
      "    " ++ entry config f ((fieldDescription f).map shownText)) = (shownFields m).map fun f =>
        "    " ++ entry config f ((fieldDescription f).map hanging) := by
    apply List.map_congr_left
    intro f hf
    cases own : fieldDescription f with
    | none => rw [Option.map_none, Option.map_none]
    | some d =>
      have plain : '\r' ∉ d.toList :=
        DocComment.notMem_description (h.returnless_field f (List.mem_of_mem_filter hf)) d own
      have moved : '\r' ∉ (hanging d).toList := by
        rw [hanging, String.toList_ofList]
        exact fun ret => (mem_shift ret).elim plain (by decide)
      rw [Option.map_some, Option.map_some, shownText, unreturned_of_returnless plain,
        unreturned_of_returnless moved]
  rw [fieldsWith, fieldsText, moved]

/-- In an entry, it is the description that is read, moved in and read again. -/
theorem shownText_entry (name : IsWord f.name) {description : Option String}
    (solid : ∀ d ∈ description, IsSolid d) : shownText (entry config f description) =
      entry config f (description.map shownText) := by
  have kept : ∀ d ∈ description.map unreturned, IsSolid d := by
    intro d hd
    obtain ⟨d, own, rfl⟩ := Option.map_eq_some_iff.mp hd
    exact isSolid_unreturned (solid d own)
  rw [shownText, unreturned_entry name, hanging_entry name kept, unreturned_entry name,
    Option.map_map, Option.map_map]
  rfl

/-- The code of the fields, read, moved in and read again. -/
theorem unreturned_inside_codeOf {entries : List String} (filled : entries ≠ [])
    (solid : ∀ e ∈ entries, IsSolid e) : unreturned (inside
      ("fields: " ++ unreturned ("(t) => " ++ codeOf entries) ++ "," ++ "\n")) =
        "  fields: (t) => (\x7b" ++ "\n" ++ ended (entries.map fun e => "    " ++ shownText e) ++
          "  \x7d)," ++ "\n" := by
  have moved : ∀ l ∈ (entries.map unreturned).map hanging, IsSolid l := by
    intro l hl
    obtain ⟨line, hline, rfl⟩ := List.mem_map.mp hl
    obtain ⟨e, he, rfl⟩ := List.mem_map.mp hline
    exact isSolid_hanging (isSolid_unreturned (solid e he))
  have code : "(t) => " ++ codeOf entries =
      "(t) => (\x7b" ++ "\n" ++ (ended (entries.map ("  " ++ ·)) ++ "\x7d)") := by
    have opening : "(t) => (\x7b" = "(t) => " ++ "(\x7b" := by decide
    rw [codeOf_eq filled, opening]
    simp only [String.append_assoc]
  have read : unreturned ("(t) => " ++ codeOf entries) =
      "(t) => (\x7b" ++ "\n" ++ (ended ((entries.map unreturned).map ("  " ++ ·)) ++ "\x7d)") := by
    rw [code, unreturned_append_left (by decide), unreturned_ended (by decide) solid,
      unreturned_of_returnless (by decide)]
  have lines : "fields: " ++ unreturned ("(t) => " ++ codeOf entries) ++ "," ++ "\n" =
      "fields: (t) => (\x7b" ++ "\n" ++
        (ended ((entries.map unreturned).map ("  " ++ ·)) ++ ("\x7d)," ++ "\n")) := by
    have opening : "fields: (t) => (\x7b" = "fields: " ++ "(t) => (\x7b" := by decide
    have closing : "\x7d)," = "\x7d)" ++ "," := by decide
    rw [read, opening, closing]
    simp only [String.append_assoc]
  have indented : inside ("fields: " ++ unreturned ("(t) => " ++ codeOf entries) ++ "," ++ "\n") =
      "  fields: (t) => (\x7b" ++ "\n" ++
        (ended (((entries.map unreturned).map hanging).map ("    " ++ ·)) ++
          ("  \x7d)," ++ "\n")) := by
    have last : inside ("\x7d)," ++ "\n") = "  \x7d)," ++ "\n" := rfl
    have start : "  fields: (t) => (\x7b" = "  " ++ "fields: (t) => (\x7b" := by decide
    rw [lines, inside_line (c := 'f') rfl (by decide), inside_ended_append, last, start,
      List.map_map (l := entries.map unreturned)]
    rfl
  have shown : (((entries.map unreturned).map hanging).map unreturned).map ("    " ++ ·) =
      entries.map fun e => "    " ++ shownText e := by
    simp only [List.map_map]
    rfl
  rw [indented, unreturned_append_left (by decide), unreturned_ended (by decide) moved, shown,
    unreturned_of_returnless (by decide)]
  simp only [String.append_assoc]

/-- The fields of the model in its definition. -/
theorem unreturned_inside_fieldsCode (names : ∀ f ∈ m.fields, IsWord f.name) : unreturned (inside
    ("fields: " ++ unreturned ("(t) => " ++ fieldsCode config m) ++ "," ++ "\n")) =
      fieldsWith shownText config m := by
  rw [fieldsCode_eq names, fieldsWith]
  split
  · next empty =>
    have code : "(t) => " ++ codeOf (entries config m) = "(t) => (\x7b\x7d)" := by
      rw [entries, empty]
      rfl
    have line : "fields: " ++ "(t) => (\x7b\x7d)" ++ "," = "fields: (t) => (\x7b\x7d)," := by decide
    have moved : inside ("fields: (t) => (\x7b\x7d)," ++ "\n") =
        "  fields: (t) => (\x7b\x7d)," ++ "\n" := rfl
    have plain : unreturned "(t) => (\x7b\x7d)" = "(t) => (\x7b\x7d)" :=
      unreturned_of_returnless (by decide)
    rw [code, plain, line, moved, unreturned_of_returnless (by decide)]
  · next filled =>
    have solid : ∀ e ∈ entries config m, IsSolid e := by
      intro e he
      obtain ⟨f, -, rfl⟩ := List.mem_map.mp he
      exact isSolid_entry config f _
    have shown : (entries config m).map (fun e => "    " ++ shownText e) = (shownFields m).map fun f =>
        "    " ++ entry config f ((fieldDescription f).map shownText) := by
      rw [entries, List.map_map]
      apply List.map_congr_left
      intro f hf
      have solid : ∀ d ∈ fieldDescription f, IsSolid d := DocComment.isSolid_description _
      rw [Function.comp_apply, shownText_entry (names f (List.mem_of_mem_filter hf)) solid]
    have nonempty : entries config m ≠ [] := mt List.map_eq_nil_iff.mp filled
    rw [unreturned_inside_codeOf nonempty solid, shown]

/-- The model's description where it stands in the file. -/
def ownText (description : Option String) : String :=
  description.elim "" fun d => "  description: " ++ templateLiteral d ++ "," ++ "\n"

def ownDescription (m : Model) : Option String := (DocComment.parse m.documentation).description

/-- The options of the object type. -/
def typeOptions (config : CrudConfig) (m : Model) : ObjectLiteral :=
  (ownDescription m).toList.map (.template "description") ++
    [.property "fields" (.arrow "t" false (.result (fieldsCode config m)))]

theorem blocks_description (d : String) : (Member.template "description" d).blocks =
    [.line ("description: " ++ templateLiteral d ++ ",")] := by
  rw [Member.template, Member.blocks, isShorthand, if_neg Bool.false_ne_true, Expr.blocks]
  · rfl
  · simp

theorem blocks_fields (code : String) :
    (Member.property "fields" (.arrow "t" false (.result code))).blocks =
      codeBetween "fields: " ("(t) => " ++ code) "," := by
  have head : arrowHead "t" false ++ " " = "(t) => " := by decide
  have key : propertyKey "fields" ++ ": " = "fields: " := by decide
  rw [Member.blocks, isShorthand, if_neg Bool.false_ne_true, Expr.blocks, ArrowBody.written,
    propertyLines, head, key]
  simp

theorem ended_ownDescription (description : Option String) :
    ended ((renderedLines ((description.toList.map (Member.template "description")).flatMap
      Member.blocks)).map inward) = ownText description := by
  cases description with
  | none => rfl
  | some d =>
    have filled : "description: " ++ templateLiteral d ++ "," ≠ "" :=
      append_ne_empty (append_ne_empty (by decide) _) _
    have opening : "  " ++ "description: " = "  description: " := by decide
    rw [Option.toList_some, List.map_singleton, List.flatMap_singleton, blocks_description,
      renderedLines_line, renderedLines_nil, List.map_singleton, inward_of_ne_empty filled,
      ended_cons, ended_nil, ownText, Option.elim_some, ← opening]
    simp only [String.append_assoc, String.append_empty]

/-- The options of the object type, with this code for its fields. -/
def optionsWith (m : Model) (code : String) : ObjectLiteral :=
  (ownDescription m).toList.map (.template "description") ++
    [.property "fields" (.arrow "t" false (.result code))]

theorem memberBlocks_optionsWith (m : Model) (code : String) : memberBlocks (optionsWith m code) =
    ((ownDescription m).toList.map (Member.template "description")).flatMap Member.blocks ++
      codeBetween "fields: " ("(t) => " ++ code) "," := by
  rw [memberBlocks_eq_flatMap, optionsWith, List.flatMap_append, List.flatMap_singleton,
    blocks_fields]

theorem memberBlocks_optionsWith_ne_nil (m : Model) (code : String) :
    memberBlocks (optionsWith m code) ≠ [] := by
  rw [memberBlocks_optionsWith]
  exact List.append_ne_nil_of_right_ne_nil _ (codeBetween_ne_nil _ _ _)

theorem typeOptions_eq (config : CrudConfig) (m : Model) :
    typeOptions config m = optionsWith m (fieldsCode config m) := rfl

theorem multiline_typeOptions (config : CrudConfig) (m : Model) : (typeOptions config m).multiline =
    "\x7b" ++ "\n" ++ ownText (ownDescription m) ++
      inside ("fields: " ++ unreturned ("(t) => " ++ fieldsCode config m) ++ "," ++ "\n") ++
        "\x7d" := by
  have solid : IsSolid ("(t) => " ++ fieldsCode config m) := (isSolid_fieldsCode config m).append _
  have lines : ∀ l ∈ renderedLines (codeBetween "fields: " ("(t) => " ++ fieldsCode config m) ","),
      '\n' ∉ l.toList := unbroken_codeBetween (by decide) (by decide) _
  -- The code of the fields is cut at its line feeds and indented line by line, templates included;
  -- the model's own description is one line to the renderer.
  rw [typeOptions_eq, multiline_eq_ended (memberBlocks_optionsWith_ne_nil m _),
    memberBlocks_optionsWith, renderedLines_append, List.map_append, ended_append,
    ended_ownDescription, inside_ended lines, text_codeBetween solid, ← String.append_assoc]

/-- The definition of the object type of the model, with this code for its fields. -/
def definitionWith (m : Model) (code : String) : Constant :=
  { name := m.name ++ "Object"
    value := "definePrismaObject(" ++ singleQuoted m.name ++ ", " ++
      (optionsWith m code).multiline ++ ")" }

/-- The file that defines the object type of the model, with this code for its fields. -/
def fileWith (m : Model) (code : String) : SourceFile :=
  { file {} m with declarations := [.constant (definitionWith m code)] }

theorem file_eq_fileWith (config : CrudConfig) (m : Model) :
    file config m = fileWith m (fieldsCode config m) := rfl

theorem value_definitionWith (m : Model) (code : String) : (definitionWith m code).value =
    "definePrismaObject(" ++ singleQuoted m.name ++ ", " ++ (optionsWith m code).multiline ++ ")" :=
  rfl

theorem isSolid_value (m : Model) (code : String) : IsSolid (definitionWith m code).value := by
  rw [value_definitionWith]
  exact IsSolid.append ⟨[], ')', by decide, by decide⟩ _

theorem render_fileWith (m : Model) (code : String) : (fileWith m code).render =
    (fileWith m code).importsText ++ "\n" ++ ended (renderedLines
      (codeBetween (definitionWith m code).head (definitionWith m code).value ";")) := by
  have sections : (fileWith m code).sections =
      [(fileWith m code).importsText, Layout.render (definitionWith m code).blocks] := rfl
  rw [SourceFile.render_eq_intercalate, sections, String.intercalate_cons_cons, String.intercalate_singleton,
    render_eq_ended, Constant.blocks]

theorem importsText_fileWith (m : Model) (code : String) :
    (fileWith m code).importsText = (file {} m).importsText := by
  have imports : (fileWith m code).imports = (file {} m).imports := rfl
  rw [SourceFile.importsText, imports, SourceFile.importsText]

theorem head_definitionWith (m : Model) (code : String) :
    (definitionWith m code).head = "export const " ++ m.name ++ "Object = " := by
  simp [Constant.head, definitionWith, exportMark, String.append_assoc]

theorem importsText_file (m : Model) : (file {} m).importsText =
    "import \x7b definePrismaObject \x7d from " ++ singleQuoted "../utils" ++ ";" ++ "\n" := by
  have statement : Import.statement { source := "../utils", names := ["definePrismaObject"] } =
      "import \x7b definePrismaObject \x7d from " ++ singleQuoted "../utils" ++ ";" := by
    decide
  have blocks : (file {} m).imports.flatMap ImportLine.blocks = [.line (Import.statement
      { source := "../utils", names := ["definePrismaObject"] })] := rfl
  rw [SourceFile.importsText, blocks, render_eq_ended, renderedLines_line, renderedLines_nil,
    ended_cons, ended_nil, String.append_empty, statement]

theorem unreturned_ownText (description : Option String) (rest : String) :
    unreturned (ownText description ++ rest) =
      ownText (description.map unreturned) ++ unreturned rest := by
  cases description with
  | none => rw [Option.map_none, ownText, Option.elim_none, String.empty_append, String.empty_append]
  | some d =>
    have whole (d rest : String) : ownText (some d) ++ rest =
        "  description: " ++ (templateLiteral d ++ ("," ++ ("\n" ++ rest))) := by
      rw [ownText, Option.elim_some]
      simp only [String.append_assoc]
    rw [Option.map_some, whole, whole, unreturned_append_left (by decide),
      (isSolid_templateLiteral d).unreturned_append, unreturned_templateLiteral,
      unreturned_append_left (by decide), unreturned_append_left (by decide)]

/-- The text of the file before its fields. -/
def fileStart (m : Model) : String :=
  (file {} m).importsText ++ "\n" ++
    ("export const " ++ m.name ++ "Object = definePrismaObject(" ++ singleQuoted m.name ++
      ", \x7b" ++ "\n" ++ ownText ((ownDescription m).map unreturned))

/-- The text of the file. -/
theorem render_eq_of_isWord (names : ∀ f ∈ m.fields, IsWord f.name) : (file config m).render =
    fileStart m ++ fieldsWith shownText config m ++ ("\x7d);" ++ "\n") := by
  have value : unreturned (definitionWith m (fieldsCode config m)).value =
      "definePrismaObject(" ++ singleQuoted m.name ++ ", " ++ ("\x7b" ++ "\n" ++
        ownText ((ownDescription m).map unreturned) ++ fieldsWith shownText config m ++ "\x7d)") := by
    have whole : (definitionWith m (fieldsCode config m)).value =
        ("definePrismaObject(" ++ singleQuoted m.name ++ ", " ++ "\x7b" ++ "\n") ++
          (ownText (ownDescription m) ++ (inside ("fields: " ++
            unreturned ("(t) => " ++ fieldsCode config m) ++ "," ++ "\n") ++ "\x7d)")) := by
      have closing : "\x7d)" = "\x7d" ++ ")" := by decide
      rw [value_definitionWith, ← typeOptions_eq, multiline_typeOptions, closing]
      simp only [String.append_assoc]
    have opening : '\r' ∉
        ("definePrismaObject(" ++ singleQuoted m.name ++ ", " ++ "\x7b" ++ "\n").toList :=
      notMem_append (notMem_append (notMem_append (notMem_append (by decide)
        (isLine_singleQuoted _).returnless) (by decide)) (by decide)) (by decide)
    rw [whole, unreturned_append_left opening, unreturned_ownText, unreturned_append fun _ => by decide,
      unreturned_inside_fieldsCode names, unreturned_of_returnless (s := "\x7d)") (by decide)]
    simp only [String.append_assoc]
  have called : "Object = definePrismaObject(" = "Object = " ++ "definePrismaObject(" := by decide
  have opening : ", \x7b" = ", " ++ "\x7b" := by decide
  have closing : "\x7d);" = "\x7d)" ++ ";" := by decide
  rw [file_eq_fileWith, render_fileWith, head_definitionWith, text_codeBetween (isSolid_value m _),
    importsText_fileWith, value, fileStart, called, opening, closing]
  simp only [String.append_assoc]

/-- The text of the file of a model whose comments hold no carriage return. -/
theorem render_eq (h : IsClean m) : (file config m).render =
    "import \x7b definePrismaObject \x7d from " ++ singleQuoted "../utils" ++ ";" ++ "\n" ++ "\n" ++
      ("export const " ++ m.name ++ "Object = definePrismaObject(" ++ singleQuoted m.name ++
        ", \x7b" ++ "\n" ++ ownText (ownDescription m) ++ fieldsText config m ++
          ("\x7d);" ++ "\n")) := by
  have own : (ownDescription m).map unreturned = ownDescription m := by
    cases own : ownDescription m with
    | none => rfl
    | some d =>
      rw [Option.map_some, unreturned_of_returnless (DocComment.notMem_description h.returnless d own)]
  rw [render_eq_of_isWord h.isWord_field, fieldsWith_shownText h, fileStart, importsText_file, own]
  simp only [String.append_assoc]

end GraphqlCrud.Output.ModelObject
