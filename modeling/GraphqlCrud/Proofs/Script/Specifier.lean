import GraphqlCrud.Proofs.Script.Declarations
import GraphqlCrud.Proofs.Storage.Places
/-!
The specifiers by which a file imports, and what they mean. A relative specifier leads from the
directory of the file that imports; so one specifier means the same in two files only if both
directories come to the same on the way.
-/
namespace GraphqlCrud.Script

open GraphqlCrud.Path Disk
open Text (HasLineBeginning)

/-- The specifier of an import that brings a name. -/
def ImportLine.specifierOf? (name : String) : ImportLine → Option String
  | .statement i => if i.names.contains name then some i.source else none
  | .given _ => none

def SourceFile.specifiersOf (name : String) (f : SourceFile) : List String :=
  f.imports.filterMap (ImportLine.specifierOf? name)

@[simp] theorem specifierOf?_statement (name : String) (i : Import) :
    ImportLine.specifierOf? name (.statement i) =
      if i.names.contains name then some i.source else none := rfl

@[simp] theorem specifiers_ofText? (name text : String) :
    (ImportLine.ofText? text).toList.filterMap (ImportLine.specifierOf? name) = [] := by
  rw [ImportLine.ofText?]
  split <;> rfl

/-- An import is a line of its file. -/
theorem hasLineBeginning_statement {f : SourceFile} {i : Import}
    (h : .statement i ∈ f.imports) : HasLineBeginning f.render (i.statement ++ "\n") := by
  obtain ⟨front, rest, imports⟩ := List.append_of_mem h
  have text : f.importsText = Text.ended (Layout.renderedLines (front.flatMap ImportLine.blocks)) ++
      (i.statement ++ "\n" ++
        Text.ended (Layout.renderedLines (rest.flatMap ImportLine.blocks))) := by
    rw [SourceFile.importsText, imports, Layout.render_eq_ended]
    simp [ImportLine.blocks]
  have begins : HasLineBeginning f.importsText (i.statement ++ "\n") := by
    rw [text]
    exact (Text.hasLineBeginning_append _ _).append_left (Text.endsLine_ended _)
  have filled : f.imports.isEmpty = false := by simp [imports]
  have listed : f.importsText ∈ f.sections := by simp [SourceFile.sections, filled]
  exact hasLineBeginning_render begins listed

/-! Ways -/

/-- A way in normal form: from the root or from wherever it is followed, first up a number of
directories and then down along names. -/
structure Route where
  isFromRoot : Bool := false
  ups : Nat := 0
  names : List String := []
deriving Repr, DecidableEq

namespace Route

/-- The way up from the root ends at the root. -/
def enter (r : Route) (name : String) : Route :=
  if name = ".." then
    if r.names = [] then { r with ups := if r.isFromRoot then r.ups else r.ups + 1 }
    else { r with names := r.names.dropLast }
  else { r with names := r.names ++ [name] }

def follow (r : Route) (names : List String) : Route := names.foldl enter r

/-- First one way and then another, which leads back up the names of the first. -/
def onto (first second : Route) : Route :=
  if second.ups ≤ first.names.length then
    { first with
      names := first.names.take (first.names.length - second.ups) ++ second.names }
  else
    { first with
      ups := if first.isFromRoot then first.ups
        else first.ups + (second.ups - first.names.length)
      names := second.names }

@[simp] theorem onto_here (r : Route) : r.onto {} = r := by
  simp [onto]

theorem isFromRoot_enter (r : Route) (name : String) :
    (r.enter name).isFromRoot = r.isFromRoot := by
  unfold enter
  split
  · split <;> rfl
  · rfl

theorem isFromRoot_follow (r : Route) (names : List String) :
    (r.follow names).isFromRoot = r.isFromRoot := by
  induction names generalizing r with
  | nil => rfl
  | cons name rest ih => exact (ih _).trans (r.isFromRoot_enter name)

theorem follow_eq_append (r : Route) {names : List String} (down : ".." ∉ names) :
    r.follow names = { r with names := r.names ++ names } := by
  induction names generalizing r with
  | nil => simp [follow]
  | cons name rest ih =>
    obtain ⟨first, later⟩ := List.ne_and_not_mem_of_not_mem_cons down
    have next : r.follow (name :: rest) = (r.enter name).follow rest := rfl
    rw [next, ih _ later, enter, if_neg (Ne.symm first), List.append_assoc, List.singleton_append]

theorem onto_up {first second : Route} (bare : second.names = []) :
    (first.onto second).enter ".." = first.onto { second with ups := second.ups + 1 } := by
  rcases Nat.lt_trichotomy second.ups first.names.length with inside | top | above
  · have left : first.names.take (first.names.length - second.ups) ≠ [] := by
      intro none
      have length := congrArg List.length none
      rw [List.length_take, List.length_nil] at length
      omega
    simp only [onto, if_pos (Nat.le_of_lt inside), if_pos (Nat.succ_le_of_lt inside), bare,
      List.append_nil, enter, if_neg left, if_true]
    rw [List.dropLast_eq_take, List.length_take, List.take_take]
    congr 2
    omega
  · have beyond : ¬ first.names.length + 1 ≤ first.names.length := by omega
    simp [onto, enter, bare, top, beyond]
  · have far : ¬ second.ups ≤ first.names.length := by omega
    have farther : ¬ second.ups + 1 ≤ first.names.length := by omega
    simp only [onto, if_neg far, if_neg farther, enter, bare, if_true]
    split
    · rfl
    · have more : second.ups + 1 - first.names.length =
          second.ups - first.names.length + 1 := by omega
      rw [more, Nat.add_assoc]

theorem enter_onto {first second : Route} (relative : second.isFromRoot = false) (name : String) :
    (first.onto second).enter name = first.onto (second.enter name) := by
  by_cases up : name = ".."
  · subst up
    by_cases bare : second.names = []
    · rw [onto_up bare]
      simp [enter, bare, relative]
    · simp only [onto, enter, if_true, if_neg bare]
      split <;> simp [bare, List.dropLast_append_of_ne_nil]
  · simp only [onto, enter, if_neg up]
    split <;> simp

/-- Names that are followed from somewhere lead up from there as far as they do on their own. -/
theorem follow_onto {first second : Route} (relative : second.isFromRoot = false)
    (names : List String) : (first.onto second).follow names = first.onto (second.follow names) := by
  induction names generalizing second with
  | nil => rfl
  | cons name rest ih =>
    have next : (second.enter name).isFromRoot = false := by
      rw [isFromRoot_enter, relative]
    calc (first.onto second).follow (name :: rest)
      _ = ((first.onto second).enter name).follow rest := rfl
      _ = (first.onto (second.enter name)).follow rest := by rw [enter_onto relative]
      _ = first.onto (second.follow (name :: rest)) := ih next

theorem follow_eq_onto (r : Route) (names : List String) :
    r.follow names = r.onto (({} : Route).follow names) := by
  rw [← follow_onto rfl, onto_here]

/-- A way comes back to where it begins if it is followed by another one that leads up so far. -/
structure LeadsBack (r : Route) (ups : Nat) : Prop where
  relative : r.isFromRoot = false
  closed : r.ups = r.names.length
  short : r.names.length ≤ ups

theorem onto_eq_right_iff {first second : Route} (relative : second.isFromRoot = false) :
    first.onto second = second ↔ first.LeadsBack second.ups := by
  obtain ⟨fromRoot, ups, names⟩ := first
  obtain ⟨fromRoot', ups', names'⟩ := second
  obtain rfl : fromRoot' = false := relative
  constructor
  · intro same
    by_cases inside : ups' ≤ names.length
    · rw [onto, if_pos inside] at same
      obtain ⟨rfl, rfl, rest⟩ := Route.mk.inj same
      have all := congrArg List.length rest
      rw [List.length_append, List.length_take] at all
      dsimp only at inside all
      exact ⟨rfl, by dsimp only; omega, by dsimp only; omega⟩
    · rw [onto, if_neg inside] at same
      obtain ⟨rfl, further, -⟩ := Route.mk.inj same
      simp only [Bool.false_eq_true, if_false] at further
      exact ⟨rfl, by dsimp only; omega, by dsimp only; omega⟩
  · rintro ⟨relative, closed, short⟩
    dsimp only at relative closed short
    subst relative closed
    by_cases inside : ups' ≤ names.length
    · have exactly : ups' = names.length := Nat.le_antisymm inside short
      simp [onto, exactly]
    · simp only [onto, if_neg inside]
      have whole : names.length + (ups' - names.length) = ups' := by omega
      simp [whole]

end Route

/-- Whether a specifier is followed from the file that imports. -/
def isRelative (specifier : String) : Bool :=
  Text.begins "./" specifier || Text.begins "../" specifier

/-- What is imported: a file, or a package that is found by its name. -/
inductive Module where
  | file (route : Route)
  | package (specifier : String)
deriving Repr, DecidableEq

/-- The way to the directory of a file. -/
def directoryOf (path : String) : Route :=
  ({ isFromRoot := isAbsolute path } : Route).follow (names path).dropLast

theorem directoryOf_ofParts {parts : List String} (h : ∀ p ∈ parts, IsPart p)
    (down : ".." ∉ parts.dropLast) :
    directoryOf (ofParts parts) = { names := parts.dropLast } := by
  rw [directoryOf, isAbsolute_ofParts h, names_ofParts h, Route.follow_eq_append _ down,
    List.nil_append]

/-- What a specifier means in a file. -/
def resolve (path specifier : String) : Module :=
  if isRelative specifier then .file ((directoryOf path).follow (names specifier))
  else .package specifier

/-- In two files, one of which stands at the top, a relative specifier means the same exactly if it
leads back from the directory of the other one. -/
theorem resolve_eq_resolve_iff {top path specifier : String} (atTop : directoryOf top = {}) :
    resolve path specifier = resolve top specifier ↔
      (isRelative specifier = true →
        (directoryOf path).LeadsBack (({} : Route).follow (names specifier)).ups) := by
  rw [resolve, resolve, atTop]
  split
  · next followed =>
    rw [Module.file.injEq, Route.follow_eq_onto, Route.onto_eq_right_iff (Route.isFromRoot_follow _ _)]
    simp [followed]
  · next named => simp [named]

end GraphqlCrud.Script
