import GraphqlCrud.Config.Basic
import GraphqlCrud.Text.Basic
import GraphqlCrud.Text.Blank
import GraphqlCrud.Toml.Reader
/-!
Reading a configuration. Each section is a table of options: reading starts from the defaults and
lets every key that is present replace one of them. A key that no option has is refused.
-/
namespace GraphqlCrud.Config

open Toml (Value)

/-- Why a configuration is refused: its text does not have the form of one, with the reason where
there is more to say; or an option that must say something is blank, and where its key is first
mentioned. -/
inductive Refusal where
  | unreadable (reason : Option String)
  | blank (key : String) (mention : Option Nat)
deriving Repr, DecidableEq

def Refusal.message : Refusal → String
  | .unreadable _ => "failed to parse config file"
  | .blank key _ => key ++ " must not be empty"

/-- Values that do not fit are refused without a reason, except for identifier mappings. -/
def unfit {α : Type} : Except Refusal α := .error (.unreadable none)

abbrev Setter (σ : Type) := Value → σ → Except Refusal σ

/-- The options of a section, by their keys and in their order. -/
abbrev Options (σ : Type) := List (String × Setter σ)

/-- Reads a section on top of what is there: a table by its keys, an array by places. -/
def Options.read {σ : Type} (options : Options σ) : Setter σ
  | .table _ entries, start =>
    entries.foldlM (fun section_ entry =>
      match options.lookup entry.1 with
      | some set => set entry.2 section_
      | none => unfit) start
  | .array items _, start =>
    (items.zip options).foldlM (fun section_ pair => pair.2.2 pair.1 section_) start
  | _, _ => unfit

def text : Value → Except Refusal String
  | .text s => .ok s
  | _ => unfit

def flag : Value → Except Refusal Bool
  | .flag b => .ok b
  | _ => unfit

def texts : Value → Except Refusal (List String)
  | .array items _ => items.mapM text
  | _ => unfit

/-- An identifier mapping: off, or the one word that turns it on. -/
def idMapping (word : String) : Value → Except Refusal Bool
  | .flag false => .ok false
  | .flag true => refusal "true"
  | .text s => if s = word then .ok true else refusal ("\"" ++ s ++ "\"")
  | _ => unfit
where
  refusal (found : String) : Except Refusal Bool :=
    .error (.unreadable (some ("expected false or \"" ++ word ++ "\", found " ++ found)))

/-- A mode, by its word. The word may also be the one key of a table, with nothing as its value. -/
def createManyMode : Value → Except Refusal CreateManyMode
  | .text word => ofWord word
  | .table _ [(word, .table _ [])] => ofWord word
  | .table _ [(word, .array [] _)] => ofWord word
  | _ => unfit
where
  ofWord (word : String) : Except Refusal CreateManyMode :=
    match CreateManyMode.all.find? (·.word == word) with
    | some mode => .ok mode
    | none => unfit

def exclusionTable : Value → Except Refusal ExclusionTable
  | .table _ entries => entries.mapM fun entry => do return (entry.1, ← texts entry.2)
  | _ => unfit

def globalOptions : Options GlobalConfig := [
  ("outputDir", fun v c => return { c with outputDir := ← text v }),
  ("deleteOutputDirBeforeGenerate", fun v c => return { c with deleteOutputFirst := ← flag v }),
  ("noNestedInput", fun v c => return { c with noNestedInput := ← flag v }),
  ("builderImportPath", fun v c => return { c with builderPath := ← text v })]

def crudOptions : Options CrudConfig := [
  ("disabled", fun v c => return { c with isDisabled := ← flag v }),
  ("generateAutocrud", fun v c => return { c with generateAutocrud := ← flag v }),
  ("prismaImporter", fun v c => return { c with prismaImport := ← text v }),
  ("inputsImporter", fun v c => return { c with inputsImport := ← text v }),
  ("prismaCaller", fun v c => return { c with prismaCaller := ← text v }),
  ("resolverImports", fun v c => return { c with resolverImports := ← text v }),
  ("includeResolversExact", fun v c => return { c with includeExact := ← texts v }),
  ("includeResolversContain", fun v c => return { c with includeContaining := ← texts v }),
  ("excludeResolversExact", fun v c => return { c with excludeExact := ← texts v }),
  ("excludeResolversContain", fun v c => return { c with excludeContaining := ← texts v }),
  ("mapIdFieldsToGraphqlId", fun v c => return { c with mapsIds := ← idMapping "Objects" v }),
  ("createManyMode", fun v c => return { c with createManyMode := ← createManyMode v })]

def exclusionOptions : Options Exclusions := [
  ("create", fun v c => return { c with create := ← exclusionTable v }),
  ("update", fun v c => return { c with update := ← exclusionTable v }),
  ("where", fun v c => return { c with where_ := ← exclusionTable v }),
  ("orderBy", fun v c => return { c with orderBy := ← exclusionTable v })]

def inputsOptions : Options InputsConfig := [
  ("disabled", fun v c => return { c with isDisabled := ← flag v }),
  ("prismaImporter", fun v c => return { c with prismaImport := ← text v }),
  ("excludeScalars", fun v c => return { c with excludedScalars := ← texts v }),
  ("excludeInputFields", fun v c =>
    return { c with excludedFields := ← exclusionOptions.read v c.excludedFields }),
  ("mapIdFieldsToGraphqlId", fun v c =>
    return { c with mapsIds := ← idMapping "WhereUniqueInputs" v })]

def sections : Options Config := [
  ("global", fun v c => return { c with global := ← globalOptions.read v c.global }),
  ("crud", fun v c => return { c with crud := ← crudOptions.read v c.crud }),
  ("inputs", fun v c => return { c with inputs := ← inputsOptions.read v c.inputs })]

/-- The options that must not be blank, in the order in which they are looked at. -/
def neededTexts (c : Config) : List (String × String) := [
  ("outputDir", c.global.outputDir),
  ("builderImportPath", c.global.builderPath),
  ("prismaCaller", c.crud.prismaCaller)]

def firstBlank? (c : Config) : Option String :=
  ((neededTexts c).find? fun (_, value) => Text.allBlank value).map (·.1)

def ofEntries (entries : Toml.Entries) : Except Refusal Config :=
  sections.read (.table .headed entries) {}

def read (source : String) : Except Refusal Config :=
  match Toml.read? source with
  | none => unfit
  | some entries => do
    let c ← ofEntries entries
    match firstBlank? c with
    | none => return c
    | some key => .error (.blank key (Text.byteIndex? key source))

end GraphqlCrud.Config
