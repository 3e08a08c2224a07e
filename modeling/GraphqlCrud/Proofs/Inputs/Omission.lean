import GraphqlCrud.Proofs.Inputs.Lowering
import GraphqlCrud.Proofs.Inputs.Ownership
/-!
How the markers on a field of a model reach the declarations of its inputs. A declaration of the
model in a category that the markers name has no field of that name; every other declaration is as if
the field had no comment.
-/
namespace GraphqlCrud

open Schema

namespace Schema

/-- The model where the model has the name, and any other model as it is. -/
def Model.supplant (m : Model) (old : Model) : Model := if old.name = m.name then m else old

/-- The document with the model in the place of the one that has its name. -/
def Document.replace (document : Document) (m : Model) : Document :=
  { document with models := document.models.map m.supplant }

/-- Where the markers in the field's comment leave it out. -/
def Field.omission (f : Field) : Omission := (DocComment.parse f.documentation).omission

/-- The field without its comment. -/
def Field.bare (f : Field) : Field := { f with documentation := none }

theorem Model.name_supplant (m old : Model) : (m.supplant old).name = old.name := by
  unfold supplant
  split
  · next same => exact same.symm
  · rfl

/-- A field, the first of its name, in its place among the fields of a model. -/
structure Model.Places (m : Model) (before : List Field) (f : Field) (after : List Field) :
    Prop where
  fields : m.fields = before ++ f :: after
  first : ∀ g ∈ before, g.name ≠ f.name

/-- The model with another field in that place. -/
def Model.withFieldAt (m : Model) (before : List Field) (f : Field) (after : List Field) : Model :=
  { m with fields := before ++ f :: after }

variable {m : Model} {before after : List Field} {f : Field}

theorem Model.Places.replaced (places : m.Places before f after) {g : Field}
    (same : g.name = f.name) : (m.withFieldAt before g after).Places before g after :=
  ⟨rfl, same ▸ places.first⟩

theorem Model.Places.field?_self (places : m.Places before f after) :
    m.field? f.name = some f := by
  have skipped : before.find? (·.name == f.name) = none := by
    rw [List.find?_eq_none]
    intro g member same
    exact places.first g member (beq_iff_eq.mp same)
  rw [field?, places.fields, List.find?_append, skipped, Option.none_or]
  simp

theorem Model.Places.field?_other (places : m.Places before f after) {name : String}
    (other : name ≠ f.name) {g : Field} (same : g.name = f.name) :
    (m.withFieldAt before g after).field? name = m.field? name := by
  have passed (g : Field) (same : g.name = f.name) : (g.name == name) = false := by
    rw [beq_eq_false_iff_ne, same]
    exact other.symm
  rw [field?, field?, places.fields, withFieldAt, List.find?_append, List.find?_append,
    List.find?_cons, List.find?_cons, passed g same, passed f rfl]

end Schema

namespace Inputs

/-- Whether an omission leaves a field out of the inputs of a category, or of those without one. -/
def hides (o : Omission) : Option InputCategory → Bool
  | some c => o.omitsInput c
  | none => o.omitsObject

theorem hides_of_omitsObject {o : Omission} (h : o.omitsObject = true)
    (category : Option InputCategory) : hides o category = true := by
  cases o with
  | everywhere => cases category <;> rfl
  | nowhere => cases h
  | inputs categories => cases h

theorem isOmitted_of_field? {m : Model} {name : String} {f : Field} (h : m.field? name = some f)
    (category : Option InputCategory) :
    isOmitted (some m) name category = hides f.omission category := by
  rw [isOmitted, Option.bind_some, h]
  cases category <;> rfl

/-! Another model of the same name -/

theorem greatestBy_map {α : Type} (key : α → Nat) (g : α → α) (items : List α) :
    greatestBy key (items.map g) = (greatestBy (fun x => key (g x)) items).map g := by
  induction items with
  | nil => rfl
  | cons x rest ih =>
    rw [List.map_cons, greatestBy, greatestBy, ih]
    cases greatestBy (fun x => key (g x)) rest with
    | none => rfl
    | some y =>
      simp only [Option.map_some]
      split <;> rfl

variable {document : Document} {config : Config} {m : Model}

theorem owner?_replace (document : Document) (m : Model) (inputName : String) :
    owner? (document.replace m) inputName = (owner? document inputName).map m.supplant := by
  have belongs : belongsTo inputName ∘ m.supplant = belongsTo inputName := by
    funext old
    rw [Function.comp_apply, belongsTo, Model.name_supplant]
    rfl
  rw [owner?, owner?, Document.replace, List.filter_map, belongs, greatestBy_map]
  simp only [Model.name_supplant]

theorem chosen_replace (document : Document) (m : Model) :
    chosen (document.replace m) = chosen document := by
  have selected (name : String) : isSelected (document.replace m) name = isSelected document name := by
    rw [isSelected, isSelected, owner?_replace, Option.isSome_map]
  simp only [chosen, selected]
  rfl

/-- A model of another name does not count for the declarations of an owner. -/
theorem declare_replace_other {name : String}
    (other : ∀ old ∈ owner? document name, old.name ≠ m.name) (input : InputType) :
    declare (document.replace m) config input name = declare document config input name := by
  have same : owner? (document.replace m) name = owner? document name := by
    rw [owner?_replace]
    cases found : owner? document name with
    | none => rfl
    | some old => rw [Option.map_some, Model.supplant, if_neg (other old found)]
  apply declare_congr
  · rw [same]
  · funext f
    rw [dropRule, dropRule, same]
  · funext f
    rw [declareRule, declareRule, same]

/-! A field with markers -/

variable {before after : List Field} {f : Field}

/-- A declaration of the model in a category that the markers name has no field of that name. -/
theorem ne_of_mem_fields_declare (places : m.Places before f after) {name : String}
    (owned : owner? document name = some m)
    (hidden : hides f.omission (categoryOf? (owner? document name) name) = true)
    {input : InputType} {d : FieldDeclaration}
    (member : d ∈ (declare document config input name).fields) : d.name ≠ f.name := by
  intro same
  rw [fields_declare, List.mem_filterMap] at member
  obtain ⟨g, kept, declared⟩ := member
  have dropped : dropRule document config name g = true := by
    rw [owned] at hidden
    rw [dropRule, isDropped, owned, ← name_of_declareField? declared, same,
      isOmitted_of_field? places.field?_self, hidden, Bool.or_true]
  simp [dropped] at kept

theorem excludedNames_congr {old new : Model} (same : new.name = old.name)
    (category : Option InputCategory) :
    excludedNames config (some new) category = excludedNames config (some old) category := by
  cases category with
  | none => rfl
  | some c => rw [excludedNames, excludedNames, same]

theorem takesId_congr {old new : Model} (same : new.name = old.name) {field : String}
    (keys : (new.field? field).map (·.isId) = (old.field? field).map (·.isId)) (name : String) :
    takesId config name (some new) field = takesId config name (some old) field := by
  have unfolded (m : Model) : takesId config name (some m) field = (config.inputs.mapsIds &&
      (name == m.name ++ "WhereUniqueInput" && ((m.field? field).map (·.isId)).getD false)) := by
    rw [takesId]
    cases m.field? field <;> rfl
  rw [unfolded, unfolded, same, keys]

/-- Any other declaration of the model is as if the field had no comment. -/
theorem declare_bare (places : m.Places before f after) {name : String}
    (owned : owner? document name = some m)
    (visible : hides f.omission (categoryOf? (owner? document name) name) = false)
    (input : InputType) :
    declare (document.replace (m.withFieldAt before f.bare after)) config input name =
      declare document config input name := by
  have named : (m.withFieldAt before f.bare after).name = m.name := rfl
  have bare : (m.withFieldAt before f.bare after).field? f.name = some f.bare :=
    (places.replaced (g := f.bare) rfl).field?_self
  have other {field : String} (h : field ≠ f.name) := places.field?_other h (g := f.bare) rfl
  have owned' : owner? (document.replace (m.withFieldAt before f.bare after)) name =
      some (m.withFieldAt before f.bare after) := by
    rw [owner?_replace, owned, Option.map_some, Model.supplant]
    exact congrArg some (if_pos rfl)
  have sameCategory : categoryOf? (some (m.withFieldAt before f.bare after)) name =
      categoryOf? (some m) name := rfl
  rw [owned] at visible
  apply declare_congr
  · rw [owned', owned, sameCategory]
  · funext g
    have omitted : isOmitted (some (m.withFieldAt before f.bare after)) g.name
        (categoryOf? (some m) name) = isOmitted (some m) g.name (categoryOf? (some m) name) := by
      by_cases own : g.name = f.name
      · rw [own, isOmitted_of_field? places.field?_self, visible, isOmitted_of_field? bare]
        cases categoryOf? (some m) name <;> rfl
      · rw [isOmitted, isOmitted, Option.bind_some, Option.bind_some, other own]
    rw [dropRule, dropRule, owned', owned, sameCategory, isDropped, isDropped, omitted,
      excludedNames_congr named]
  · funext g
    have takes : takesId config name (some (m.withFieldAt before f.bare after)) g.name =
        takesId config name (some m) g.name := by
      refine takesId_congr named ?_ name
      by_cases own : g.name = f.name
      · rw [own, places.field?_self, bare]
        rfl
      · rw [other own]
    rw [declareRule, declareRule, owned', owned, declareField?, declareField?, takes]

end Inputs
end GraphqlCrud
