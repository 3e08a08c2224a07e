import GraphqlCrud.Proofs.Output.ObjectText
import GraphqlCrud.Proofs.Script.LiteralValues
import GraphqlCrud.Proofs.Text.Search
/-!
What an entry in the fields of an object type tells about its field. An entry can be taken apart
again, whatever the type of the field and its description hold, because every literal in it ends at
its own mark.
-/
namespace GraphqlCrud.Script

/-- The text that a template was written for, read behind its opening mark, and what follows its
closing mark. Carriage returns stay, which the value of a template has not. -/
def templateText? : List Char → Option (List Char × List Char)
  | [] => none
  | '\x60' :: s => some ([], s)
  | '\\' :: c :: s => before [c] (templateText? s)
  | c :: s => before [c] (templateText? s)

theorem templateText?_templateChars (s rest : List Char) :
    templateText? (templateChars s ++ '\x60' :: rest) = some (s, rest) := by
  induction s with
  | nil => rfl
  | cons c s ih =>
    rw [templateChars_cons, List.append_assoc]
    split
    · rw [List.cons_append, List.singleton_append, templateText?, ih]
      rfl
    · next plain =>
      simp only [not_or] at plain
      rw [List.singleton_append, templateText?.eq_4 _ _ plain.2.1, ih]
      · rfl
      · exact fun _ _ backslash _ => plain.1 backslash

theorem templateText?_templateLiteral (s : String) (rest : List Char) :
    ∃ body, (templateLiteral s).toList ++ rest = '\x60' :: body ∧
      templateText? body = some (s.toList, rest) :=
  ⟨templateChars s.toList ++ '\x60' :: rest, toList_between _ _ _,
    templateText?_templateChars s.toList rest⟩

end GraphqlCrud.Script

namespace GraphqlCrud.Output.ModelObject

open Script Schema Text Layout

/-- What an entry tells about a field: for one that is no relation also whether it is a list, and
the type under which it is exposed. -/
structure FieldFacts where
  name : String
  isRelation : Bool
  description : Option String
  exposed : Option (Bool × String)
  isRequired : Bool
deriving Repr, DecidableEq

/-- What there is to tell about a field, under a given description. -/
def FieldFacts.of (config : CrudConfig) (f : Field) (description : Option String) : FieldFacts :=
  { name := f.name
    isRelation := f.isRelation
    description
    exposed := if f.isRelation then none else some (f.isList, exposedType config f)
    isRequired := f.isRequired }

/-! Reading an entry -/

def flag? (s : List Char) : Option (Bool × List Char) :=
  match after? "true".toList s with
  | some rest => some (true, rest)
  | none => (after? "false".toList s).map (false, ·)

/-- A description, where there is one, and the comma behind it. -/
def description? (s : List Char) : Option (Option String × List Char) :=
  match after? "description: \x60".toList s with
  | none => some (none, s)
  | some s => do
    let (text, s) ← templateText? s
    let s ← after? ", ".toList s
    return (some (String.ofList text), s)

/-- A type, in brackets if it is that of a list, and the comma behind it. -/
def exposed? (s : List Char) : Option ((Bool × String) × List Char) := do
  let s ← after? "type: ".toList s
  match after? "[".toList s with
  | some s =>
    let (type, s) ← readString? s
    let s ← after? "], ".toList s
    return ((true, String.ofList type), s)
  | none =>
    let (type, s) ← readString? s
    let s ← after? ", ".toList s
    return ((false, String.ofList type), s)

/-- The options after the description: a type unless the field is a relation, and whether its values
may be missing. -/
def facts? (isRelation : Bool) (s : List Char) :
    Option (Option (Bool × String) × Bool × List Char) := do
  let (exposed, s) ←
    if isRelation then some (none, s) else (exposed? s).map fun (type, s) => (some type, s)
  let s ← after? "nullable: ".toList s
  let (isNullable, s) ← flag? s
  return (exposed, isNullable, s)

def isRelation? (method : List Char) : Option Bool :=
  if method = "relation".toList then some true
  else if method = "expose".toList then some false
  else none

/-- What an entry tells, and what comes after it. -/
def entry? (s : List Char) : Option (FieldFacts × List Char) := do
  let (name, s) ← cut? ": t.".toList s
  let (method, s) ← cut? "(".toList s
  let isRelation ← isRelation? method
  let (quoted, s) ← readString? s
  if quoted ≠ name then none
  let s ← after? ", \x7b ".toList s
  let (description, s) ← description? s
  let (exposed, isNullable, s) ← facts? isRelation s
  let s ← after? " \x7d),".toList s
  return ({ name := String.ofList name, isRelation, description, exposed, isRequired := !isNullable }, s)

theorem flag?_flagText (b : Bool) (rest : List Char) :
    flag? ((flagText b).toList ++ rest) = some (b, rest) := by
  cases b <;> simp [flag?, flagText, after?]

theorem description?_described (description : Option String) {rest : List Char}
    (other : rest.head? ≠ some 'd') :
    description? ((described description).toList ++ rest) = some (description, rest) := by
  cases description with
  | none =>
    have absent : after? "description: \x60".toList rest = none := by
      cases rest with
      | nil => rfl
      | cons c rest => exact if_neg fun same => other (congrArg some same.symm)
    rw [described, Option.elim_none, String.toList_empty, List.nil_append, description?, absent]
  | some d =>
    obtain ⟨body, opened, read⟩ := templateText?_templateLiteral d (", ".toList ++ rest)
    have whole : (described (some d)).toList ++ rest = "description: \x60".toList ++ body := by
      rw [described, Option.elim_some, String.toList_append, String.toList_append, List.append_assoc,
        List.append_assoc, opened]
      rfl
    rw [whole, description?, after?_append]
    simp only [read, Option.bind_eq_bind, Option.bind_some, after?_append, Option.pure_def,
      String.ofList_toList]

/-- The type of a field as an option, and the comma behind it. -/
theorem exposed?_typeText (config : CrudConfig) (f : Field) (rest : List Char) :
    exposed? ("type: ".toList ++ ((typeText config f).toList ++ (", ".toList ++ rest))) =
      some ((f.isList, exposedType config f), rest) := by
  have read := readsAs_doubleQuoted (exposedType config f)
  rw [exposed?, after?_append, typeText]
  cases f.isList with
  | true =>
    have closing : "]".toList ++ (", ".toList ++ rest) = "], ".toList ++ rest := rfl
    rw [if_pos rfl, String.toList_append, String.toList_append, List.append_assoc, List.append_assoc,
      closing]
    simp only [Option.bind_eq_bind, Option.bind_some, after?_append, read _, Option.pure_def,
      String.ofList_toList]
  | false =>
    have quoted : after? "[".toList ((doubleQuoted (exposedType config f)).toList ++
        (", ".toList ++ rest)) = none := by
      rw [doubleQuoted, toList_between]
      rfl
    rw [if_neg Bool.false_ne_true]
    simp only [Option.bind_eq_bind, Option.bind_some, quoted, read _, after?_append,
      Option.pure_def, String.ofList_toList]

theorem isRelation?_method (f : Field) : isRelation? (method f).toList = some f.isRelation := by
  rw [method]
  cases f.isRelation <;> decide

/-- The options after the description begin with a key of their own. -/
theorem head?_facts (config : CrudConfig) (f : Field) (rest : List Char) :
    ((facts config f).toList ++ rest).head? ≠ some 'd' := by
  rw [facts]
  cases f.isRelation <;> simp [String.toList_append]

theorem facts?_facts (config : CrudConfig) (f : Field) (rest : List Char) :
    facts? f.isRelation ((facts config f).toList ++ rest) =
      some (if f.isRelation then none else some (f.isList, exposedType config f),
        !f.isRequired, rest) := by
  rw [facts?, facts]
  cases f.isRelation with
  | true =>
    simp only [if_true, String.toList_append, String.toList_empty, List.nil_append,
      List.append_assoc, Option.bind_eq_bind, Option.bind_some, after?_append, flag?_flagText,
      Option.pure_def]
  | false =>
    simp only [Bool.false_eq_true, if_false, String.toList_append, List.append_assoc,
      exposed?_typeText, Option.map_some, Option.bind_eq_bind, Option.bind_some, after?_append,
      flag?_flagText, Option.pure_def]

/-- An entry is read to its end and no further. -/
theorem entry?_entry {f : Field} (name : IsWord f.name) (config : CrudConfig)
    (description : Option String) (rest : List Char) :
    entry? ((entry config f description).toList ++ rest) =
      some (.of config f description, rest) := by
  have colon : ':' ∉ f.name.toList := name.notMem (by decide) (by decide)
  have mark : '(' ∉ (method f).toList := by
    rw [method]
    cases f.isRelation <;> decide
  have named (s : List Char) : cut? ": t.".toList (f.name.toList ++ (": t.".toList ++ s)) =
      some (f.name.toList, s) :=
    cut?_append (by decide) (fun inside => colon (inside.subset List.mem_cons_self)) s
  have called (s : List Char) : cut? "(".toList ((method f).toList ++ ("(".toList ++ s)) =
      some ((method f).toList, s) :=
    cut?_append (by decide) (fun inside => mark (inside.subset List.mem_cons_self)) s
  have quoted := readsAs_doubleQuoted f.name
  rw [entry, entryStart, entry?]
  simp only [String.toList_append, List.append_assoc, named, called, Option.bind_eq_bind,
    Option.bind_some, isRelation?_method, quoted _, ne_eq, not_true_eq_false, if_false,
    after?_append, description?_described description (head?_facts config f _), facts?_facts,
    Option.pure_def, Bool.not_not, String.ofList_toList]
  rfl

end GraphqlCrud.Output.ModelObject
