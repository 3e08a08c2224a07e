import GraphqlCrud.Output.Registration
import GraphqlCrud.Proofs.Plan.Survival
import GraphqlCrud.Proofs.Script.Code
import GraphqlCrud.Proofs.Script.Declarations
/-!
The table of descriptors, line by line.
-/
namespace GraphqlCrud.Output.Registration

open Script Text Layout

def fieldSymbol (model : String) (t : RootType) (o : Operation) : String :=
  o.resolverName model ++ t.name

/-- The line that lists a resolver of a model under the key of its operation. -/
def entryLine (model : String) (t : RootType) (o : Operation) : String :=
  "      " ++ o.name ++ ": " ++ model ++ "." ++ fieldSymbol model t o ++ "Object,"

def mapLines (key : String) (entries : List String) : List String :=
  if entries = [] then ["    " ++ key ++ ": \x7b\x7d,"]
  else ("    " ++ key ++ ": \x7b") :: (entries ++ ["    \x7d,"])

def descriptorLines (config : CrudConfig) (model : String) : List String :=
  ["  \x7b", "    modelName: '" ++ model ++ "',",
    "    object: " ++ model ++ "." ++ model ++ "Object,"] ++
    mapLines "queries" ((Plan.survivors config model .query).map (entryLine model .query)) ++
    mapLines "mutations"
      ((Plan.survivors config model .mutation).map (entryLine model .mutation)) ++
    ["  \x7d,"]

def tableHead : String := "export const crudDescriptors: CrudDescriptor[] = "

/-- The lines of the table of descriptors. -/
def tableLines (config : CrudConfig) (models : List String) : List String :=
  if models = [] then [tableHead ++ "[]" ++ ";"]
  else (tableHead ++ "[") :: (models.flatMap (descriptorLines config) ++ ["];"])

variable {config : CrudConfig} {model : String}

def access (model symbol : String) : String := model ++ "." ++ symbol

theorem isEntry_access {key symbol : String} (hm : IsWord model) (hk : IsWord key)
    (hs : IsWord symbol) (solid : IsSolid symbol) : IsEntry (key, access model symbol) where
  other := by
    intro same
    have dot : '.' ∈ (access model symbol).toList := by simp [access]
    have key_eq : access model symbol = key := same
    rw [key_eq] at dot
    exact hk.notMem (by decide) (by decide) dot
  line := (hm.isLine.append (by decide)).append hs.isLine
  solid := solid.append _

theorem isWord_operation (o : Operation) : IsWord o.name := by
  cases o <;> exact IsWord.of_isIdentifier (by decide)

theorem isWord_rootType (t : RootType) : IsWord t.name := by
  cases t <;> exact IsWord.of_isIdentifier (by decide)

theorem isWord_object : IsWord "Object" := IsWord.of_isIdentifier (by decide)

theorem isSolid_object : IsSolid "Object" := ⟨"Objec".toList, 't', by decide, by decide⟩

theorem isWord_fieldSymbol (h : IsWord model) (t : RootType) (o : Operation) :
    IsWord (fieldSymbol model t o) := ((isWord_operation o).append h).append (isWord_rootType t)

/-- The members of the map of a root type: under the key of an operation the access to the object
that defines its field. -/
def entries (config : CrudConfig) (model : String) (t : RootType) : List (String × String) :=
  (Plan.survivors config model t).map fun o =>
    (o.name, access model (fieldSymbol model t o ++ "Object"))

theorem isEntry_entries (config : CrudConfig) (h : IsWord model) (t : RootType) :
    ∀ e ∈ entries config model t, IsEntry e := by
  intro e he
  obtain ⟨o, -, rfl⟩ := List.mem_map.mp he
  exact isEntry_access h (isWord_operation o) ((isWord_fieldSymbol h t o).append isWord_object)
    (isSolid_object.append _)

theorem resolverMap_eq (t : RootType) :
    resolverMap (Plan.surviving config model) t =
      (entries config model t).map fun e => .code e.1 e.2 := by
  rw [resolverMap, descriptorFields, Plan.ofType_surviving, entries, List.map_map, List.map_map]
  apply List.map_congr_left
  intro o _
  rfl

theorem propertyKey_operation (o : Operation) : propertyKey o.name = o.name := by
  cases o <;> decide

theorem inward_entry (t : RootType) (o : Operation) :
    inward (inward (inward
      (propertyKey o.name ++ ": " ++ access model (fieldSymbol model t o ++ "Object") ++ ","))) =
      entryLine model t o := by
  have filled : o.name ++ ": " ++ access model (fieldSymbol model t o ++ "Object") ++ "," ≠ "" := by
    simp only [String.append_assoc]
    exact append_ne_empty (isWord_operation o).nonempty _
  have margin : "  " ++ "    " = "      " := by decide
  have ending : "Object" ++ "," = "Object," := by decide
  rw [propertyKey_operation, inward_inward filled,
    inward_of_ne_empty (append_ne_empty (by decide) _), ← String.append_assoc, margin]
  simp only [entryLine, access, String.append_assoc, ending]

/-- Two levels in, the map of a root type is what a descriptor shows. -/
theorem map_inward_resolverMap (h : IsWord model) (t : RootType) {key : String}
    (hkey : isIdentifier key = true) :
    ((renderedLines (Member.property key
        (.object (resolverMap (Plan.surviving config model) t))).blocks).map inward).map inward =
      mapLines key ((Plan.survivors config model t).map (entryLine model t)) := by
  have key_ne : key ≠ "" := (IsWord.of_isIdentifier hkey).nonempty
  have written : propertyKey key = key := if_pos hkey
  have opening : inward (inward (key ++ ": \x7b")) = "    " ++ key ++ ": \x7b" := by
    rw [inward_inward (append_ne_empty key_ne _), String.append_assoc]
  have both : inward (inward (key ++ ": \x7b\x7d,")) = "    " ++ key ++ ": \x7b\x7d," := by
    rw [inward_inward (append_ne_empty key_ne _), String.append_assoc]
  have closing : inward (inward "\x7d,") = "    \x7d," := inward_inward (by decide)
  have lines : ((((entries config model t).map fun e => propertyKey e.1 ++ ": " ++ e.2 ++ ",").map
      inward).map inward).map inward =
        (Plan.survivors config model t).map (entryLine model t) := by
    simp only [entries, List.map_map]
    apply List.map_congr_left
    intro o _
    simp only [Function.comp_apply]
    exact inward_entry t o
  rw [renderedLines_object, resolverMap_eq,
    renderedLines_entries (isEntry_entries config h t), mapLines, written]
  by_cases none : Plan.survivors config model t = []
  · have empty : entries config model t = [] := by rw [entries, none, List.map_nil]
    simp only [none, empty, List.map_nil, if_true, List.map_cons, both]
  · have filled : entries config model t ≠ [] := by simpa [entries] using none
    simp only [List.map_eq_nil_iff, none, filled, if_false, List.map_cons, List.map_append,
      List.map_nil, opening, closing, lines]

theorem isEntry_modelName (h : IsWord model) : IsEntry ("modelName", singleQuoted model) := by
  rw [singleQuoted_word h]
  constructor
  · intro same
    have quote : '\'' ∈ ("'" ++ model ++ "'").toList := by simp
    have key_eq : "'" ++ model ++ "'" = "modelName" := same
    rw [key_eq] at quote
    revert quote
    decide
  · have quote : IsLine "'" := by decide
    exact (quote.append h.isLine).append quote
  · exact IsSolid.append ⟨[], '\'', by decide, by decide⟩ _

def memberLines (config : CrudConfig) (model : String) : List String :=
  ["modelName: '" ++ model ++ "',", "object: " ++ model ++ "." ++ model ++ "Object,"] ++
    renderedLines (Member.property "queries"
      (.object (resolverMap (Plan.surviving config model) .query))).blocks ++
    renderedLines (Member.property "mutations"
      (.object (resolverMap (Plan.surviving config model) .mutation))).blocks

theorem renderedLines_descriptor (config : CrudConfig) (h : IsWord model) :
    renderedLines (memberBlocks (descriptor (Plan.surviving config model))) =
      memberLines config model := by
  have name_entry := isEntry_modelName h
  have key_word : IsWord "object" := IsWord.of_isIdentifier (by decide)
  have object_entry : IsEntry ("object", access model (model ++ "Object")) :=
    isEntry_access h key_word (h.append isWord_object) (isSolid_object.append _)
  have object_code : model ++ "." ++ model ++ "Object" = access model (model ++ "Object") :=
    String.append_assoc
  have name_key : propertyKey "modelName" = "modelName" := by decide
  have object_key : propertyKey "object" = "object" := by decide
  have members : memberBlocks (descriptor (Plan.surviving config model)) =
      (Member.code "modelName" (singleQuoted model)).blocks ++
        ((Member.code "object" (model ++ "." ++ model ++ "Object")).blocks ++
        ((Member.property "queries"
          (.object (resolverMap (Plan.surviving config model) .query))).blocks ++
        ((Member.property "mutations"
          (.object (resolverMap (Plan.surviving config model) .mutation))).blocks ++ []))) := by
    rw [memberBlocks_eq_flatMap]
    rfl
  rw [members, object_code, blocks_code name_entry.other name_entry.line name_entry.solid,
    blocks_code object_entry.other object_entry.line object_entry.solid, name_key, object_key,
    ← object_code, singleQuoted_word h]
  have quote : "modelName: " ++ "'" = "modelName: '" := by decide
  have name_line (rest : String) : "modelName: " ++ ("'" ++ rest) = "modelName: '" ++ rest := by
    rw [← String.append_assoc, quote]
  simp [memberLines, String.append_assoc, name_line]

theorem map_inward_memberLines (h : IsWord model) :
    "  \x7b" :: (((memberLines config model).map inward).map inward ++ ["  \x7d,"]) =
      descriptorLines config model := by
  have queries : isIdentifier "queries" = true := by decide
  have mutations : isIdentifier "mutations" = true := by decide
  rw [memberLines, List.map_append, List.map_append, List.map_append, List.map_append,
    map_inward_resolverMap h .query queries, map_inward_resolverMap h .mutation mutations]
  have name_margin : "    " ++ "modelName: '" = "    modelName: '" := by decide
  have object_margin : "    " ++ "object: " = "    object: " := by decide
  have name_line : inward (inward ("modelName: '" ++ model ++ "',")) =
      "    modelName: '" ++ model ++ "'," := by
    rw [String.append_assoc, inward_inward (append_ne_empty (by decide) _), ← String.append_assoc,
      ← String.append_assoc, name_margin]
  have object_line : inward (inward ("object: " ++ model ++ "." ++ model ++ "Object,")) =
      "    object: " ++ model ++ "." ++ model ++ "Object," := by
    simp only [String.append_assoc]
    rw [inward_inward (append_ne_empty (by decide) _), ← String.append_assoc, object_margin]
  simp only [List.map_cons, List.map_nil, name_line, object_line, descriptorLines,
    List.append_assoc, List.cons_append, List.nil_append]

theorem isLine_resolverMap (h : IsWord model) (t : RootType) {key : String}
    (hkey : isIdentifier key = true) :
    ∀ line ∈ renderedLines (Member.property key
      (.object (resolverMap (Plan.surviving config model) t))).blocks, IsLine line := by
  have key_line : IsLine key := (IsWord.of_isIdentifier hkey).isLine
  have written : propertyKey key = key := if_pos hkey
  have colon : IsLine ": " := by decide
  have entry_line : ∀ line ∈ ((entries config model t).map fun e =>
      propertyKey e.1 ++ ": " ++ e.2 ++ ",").map inward, IsLine line := by
    intro line hline
    obtain ⟨inner, hinner, rfl⟩ := List.mem_map.mp hline
    obtain ⟨e, he, rfl⟩ := List.mem_map.mp hinner
    obtain ⟨o, -, rfl⟩ := List.mem_map.mp he
    have operation_line := (isWord_operation o).isLine
    have value_line := (isEntry_entries config h t _ he).line
    rw [propertyKey_operation]
    exact isLine_inward (((operation_line.append colon).append value_line).append (by decide))
  rw [renderedLines_object, resolverMap_eq,
    renderedLines_entries (isEntry_entries config h t), written]
  split
  · exact List.forall_mem_singleton.mpr (key_line.append (by decide))
  · refine List.forall_mem_cons.mpr ⟨key_line.append (by decide), ?_⟩
    intro line hline
    rcases List.mem_append.mp hline with hline | hline
    · exact entry_line line hline
    · obtain rfl := List.mem_singleton.mp hline
      decide

theorem isLine_memberLines (h : IsWord model) : ∀ line ∈ memberLines config model, IsLine line := by
  have name_line : IsLine ("modelName: '" ++ model ++ "',") :=
    (IsLine.append (by decide) h.isLine).append (by decide)
  have object_line : IsLine ("object: " ++ model ++ "." ++ model ++ "Object,") := by
    have access_line : IsLine ("object: " ++ model ++ ".") :=
      (IsLine.append (by decide) h.isLine).append (by decide)
    exact (access_line.append h.isLine).append (by decide)
  intro line hline
  rcases List.mem_append.mp hline with hline | hline
  · rcases List.mem_append.mp hline with hline | hline
    · rcases List.mem_pair.mp hline with rfl | rfl
      · exact name_line
      · exact object_line
    · exact isLine_resolverMap h .query (by decide) line hline
  · exact isLine_resolverMap h .mutation (by decide) line hline

theorem indentLines_eq (text : String) :
    indentLines text = "\n".intercalate ((lines text).map inward) := by
  have same : (fun line : String => if line = "" then "" else "  " ++ line) = inward := by
    funext line
    by_cases h : line = ""
    · rw [if_pos h, h]
      rfl
    · rw [if_neg h, inward_of_ne_empty h]
  rw [indentLines, same]

theorem indentLines_descriptor (h : IsWord model) :
    indentLines ((descriptor (Plan.surviving config model)).multiline ++ ",") =
      "\n".intercalate (descriptorLines config model) := by
  have filled : memberBlocks (descriptor (Plan.surviving config model)) ≠ [] := by
    intro empty
    have lines := renderedLines_descriptor config h
    rw [empty] at lines
    cases lines
  have inner : ∀ line ∈ "\x7b" :: (memberLines config model).map inward, IsLine line := by
    refine List.forall_mem_cons.mpr ⟨by decide, ?_⟩
    intro line hline
    obtain ⟨outer, houter, rfl⟩ := List.mem_map.mp hline
    exact isLine_inward (isLine_memberLines h outer houter)
  have solid : IsSolid "\x7d," := ⟨['\x7d'], ',', by decide, by decide⟩
  have opening : inward "\x7b" = "  \x7b" := by decide
  have closing : inward "\x7d," = "  \x7d," := by decide
  rw [multiline_eq filled, renderedLines_descriptor config h, ← List.cons_append,
    intercalate_append_tail]
  have tail : "\x7d" ++ "," = "\x7d," := by decide
  rw [tail, indentLines_eq, lines_intercalate_solid inner (by decide) solid, List.map_append,
    List.map_cons, List.map_singleton, opening, closing, List.cons_append,
    map_inward_memberLines h]

theorem descriptorLines_ne_nil (config : CrudConfig) (model : String) :
    descriptorLines config model ≠ [] := by
  rw [descriptorLines, List.append_assoc, List.append_assoc, List.cons_append]
  exact List.cons_ne_nil _ _

theorem isLine_descriptorLines (h : IsWord model) :
    ∀ line ∈ descriptorLines config model, IsLine line := by
  rw [← map_inward_memberLines h]
  refine List.forall_mem_cons.mpr ⟨by decide, ?_⟩
  intro line hline
  rcases List.mem_append.mp hline with hline | hline
  · obtain ⟨middle, hmiddle, rfl⟩ := List.mem_map.mp hline
    obtain ⟨outer, houter, rfl⟩ := List.mem_map.mp hmiddle
    exact isLine_inward (isLine_inward (isLine_memberLines h outer houter))
  · obtain rfl := List.mem_singleton.mp hline
    decide

variable {document : Schema.Document}

theorem descriptors_value (h : ∀ m ∈ document.models, IsWord m.name)
    (filled : document.models ≠ []) :
    (descriptors (Plan.build document config)).value =
      "\n".intercalate ("[" ::
        ((document.models.flatMap fun m => descriptorLines config m.name) ++ ["]"])) := by
  have models := Plan.models_build document config
  have some_model : (Plan.build document config).models.isEmpty = false := by
    rw [models]
    simpa using filled
  have pieces : ((Plan.build document config).models.map fun m =>
      indentLines ((descriptor m).multiline ++ ",")) =
        (document.models.map fun m => descriptorLines config m.name).map "\n".intercalate := by
    rw [models, List.map_map, List.map_map]
    apply List.map_congr_left
    intro m hm
    rw [Function.comp_apply, indentLines_descriptor (h m hm), Function.comp_apply]
  have each : ∀ p ∈ document.models.map (fun m => descriptorLines config m.name), p ≠ [] := by
    intro p hp
    obtain ⟨m, -, rfl⟩ := List.mem_map.mp hp
    exact descriptorLines_ne_nil config m.name
  have table : document.models.flatMap (fun m => descriptorLines config m.name) ≠ [] := by
    obtain ⟨m, rest, hm⟩ := List.exists_cons_of_ne_nil filled
    rw [hm, List.flatMap_cons]
    exact List.append_ne_nil_of_left_ne_nil (descriptorLines_ne_nil config m.name) _
  have opening : "[\n" = "[" ++ "\n" := by decide
  have closing : "\n]" = "\n" ++ "]" := by decide
  rw [descriptors, if_neg (by rw [some_model]; exact Bool.false_ne_true), pieces,
    intercalate_map_intercalate each, ← List.flatMap_def,
    String.intercalate_cons_of_ne_nil (by simp), intercalate_append_singleton table, opening,
    closing]
  simp only [String.append_assoc]

/-- The lines of the table in the file that registers the models. -/
theorem renderedLines_descriptors (h : ∀ m ∈ document.models, IsWord m.name) :
    renderedLines (Declaration.constant (descriptors (Plan.build document config))).blocks =
      tableLines config (document.models.map (·.name)) := by
  have head : (descriptors (Plan.build document config)).head = tableHead := by
    have name : "export " ++ "const " ++ "crudDescriptors" ++ ": CrudDescriptor[]" ++ " = " =
        tableHead := by decide
    rw [← name]
    rfl
  rw [Declaration.blocks_constant, Constant.blocks, head, tableLines]
  by_cases none : document.models = []
  · have models : (Plan.build document config).models.isEmpty = true := by
      rw [Plan.models_build, none]
      rfl
    have value : (descriptors (Plan.build document config)).value = "[]" := if_pos models
    have solid : IsSolid "[]" := ⟨['['], ']', by decide, by decide⟩
    rw [value, codeBetween_line (by decide) solid, none, List.map_nil, if_pos rfl,
      renderedLines_line, renderedLines_nil]
  · have solid : IsSolid "]" := ⟨[], ']', by decide, by decide⟩
    have inner : ∀ line ∈ document.models.flatMap (fun m => descriptorLines config m.name),
        IsLine line := by
      intro line hline
      obtain ⟨m, hm, hline⟩ := List.mem_flatMap.mp hline
      exact isLine_descriptorLines (h m hm) line hline
    have names : document.models.map (·.name) ≠ [] := by simpa using none
    have ending : "]" ++ ";" = "];" := by decide
    rw [descriptors_value h none, codeBetween_lines (by decide) inner (by decide) solid,
      renderedLines_lines, if_neg names, List.flatMap_map, ending]

end GraphqlCrud.Output.Registration
