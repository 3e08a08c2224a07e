/-!
Maps from places to what is there. A place is reached from the root name by name, so a map is a
forest: every branch has a name, perhaps something at the place that it leads to, the branches below
that place, and the branches beside it.
-/
namespace GraphqlCrud

/-- A place: the names on the way to it from the root. -/
abbrev Place := List String

inductive PlaceMap (α : Type) where
  | empty
  | branch (name : String) (here : Option α) (below beside : PlaceMap α)
deriving Repr, DecidableEq

namespace PlaceMap

variable {α : Type}

/-- What is at a place. The root has no name, and nothing is there. -/
def get? : PlaceMap α → Place → Option α
  | .empty, _ => none
  | .branch .., [] => none
  | .branch n here below beside, name :: rest =>
    if n = name then if rest = [] then here else below.get? rest
    else beside.get? (name :: rest)

def single (value : α) : Place → PlaceMap α
  | [] => .empty
  | name :: rest =>
    .branch name (if rest = [] then some value else none) (single value rest) .empty

def put (value : α) : PlaceMap α → Place → PlaceMap α
  | m, [] => m
  | .empty, name :: rest => single value (name :: rest)
  | .branch n here below beside, name :: rest =>
    if n = name then
      .branch n (if rest = [] then some value else here) (below.put value rest) beside
    else .branch n here below (beside.put value (name :: rest))

def keep (test : Place → Bool) : PlaceMap α → PlaceMap α
  | .empty => .empty
  | .branch n here below beside =>
    .branch n (if test [n] then here else none) (below.keep fun place => test (n :: place))
      (beside.keep test)

def toList : PlaceMap α → List (Place × α)
  | .empty => []
  | .branch n here below beside =>
    (here.map fun value => ([n], value)).toList ++
      (below.toList.map fun (place, value) => (n :: place, value)) ++ beside.toList

@[simp] theorem get?_nil (m : PlaceMap α) : m.get? [] = none := by
  cases m <;> rfl

theorem get?_single (value : α) {place : Place} (h : place ≠ []) (other : Place) :
    (single value place).get? other = if other = place then some value else none := by
  induction place generalizing other with
  | nil => exact absurd rfl h
  | cons name rest ih =>
    cases other with
    | nil => simp
    | cons other others =>
      by_cases hn : name = other
      · subst hn
        by_cases hr : rest = []
        · subst hr
          cases others <;> simp [single, get?]
        · cases others with
          | nil => simp [single, get?, hr, Ne.symm hr]
          | cons _ _ => simp [single, get?, ih hr]
      · simp [single, get?, hn, Ne.symm hn]

theorem get?_put (m : PlaceMap α) (value : α) {place : Place} (h : place ≠ []) (other : Place) :
    (m.put value place).get? other = if other = place then some value else m.get? other := by
  induction m generalizing place other with
  | empty =>
    cases place with
    | nil => exact absurd rfl h
    | cons name rest => simp [put, get?_single value h, get?]
  | branch n here below beside ihBelow ihBeside =>
    cases place with
    | nil => exact absurd rfl h
    | cons name rest =>
      cases other with
      | nil => simp
      | cons other others =>
        by_cases hn : n = name
        · subst hn
          by_cases ho : n = other
          · subst ho
            by_cases hr : rest = []
            · subst hr
              cases others <;> cases below <;> simp [put, get?]
            · cases others with
              | nil => simp [put, get?, hr, Ne.symm hr]
              | cons _ _ => simp [put, get?, ihBelow hr]
          · simp [put, get?, ho, Ne.symm ho]
        · by_cases ho : n = other
          · subst ho
            simp [put, get?, hn]
          · simp [put, get?, hn, ho, ihBeside h]

theorem get?_keep (m : PlaceMap α) (test : Place → Bool) (place : Place) :
    (m.keep test).get? place = if test place then m.get? place else none := by
  induction m generalizing test place with
  | empty => simp [keep, get?]
  | branch n here below beside ihBelow ihBeside =>
    cases place with
    | nil => simp
    | cons name rest =>
      by_cases hn : n = name
      · subst hn
        by_cases hr : rest = []
        · subst hr; simp [keep, get?]
        · simp [keep, get?, hr, ihBelow]
      · simp [keep, get?, hn, ihBeside]

end PlaceMap
end GraphqlCrud
