import GraphqlCrud.Schema.Basic
/-!
Types that input fields refer to: the scalars that need a declaration, and the one type among
those that a field accepts that its declaration names.
-/
namespace GraphqlCrud.Schema

/-- Scalars that generated code declares itself. -/
inductive SpecialScalar where
  | dateTime
  | decimal
  | bytes
  | json
  | bigInt
deriving Repr, DecidableEq

namespace SpecialScalar

def all : List SpecialScalar := [.dateTime, .decimal, .bytes, .json, .bigInt]

def name : SpecialScalar → String
  | .dateTime => "DateTime"
  | .decimal => "Decimal"
  | .bytes => "Bytes"
  | .json => "Json"
  | .bigInt => "BigInt"

def isUsedIn (s : SpecialScalar) (inputs : List InputType) : Bool :=
  inputs.any fun i => i.fields.any fun f => f.accepts.any fun t =>
    t.location == .scalar && t.name == s.name

def usedIn (inputs : List InputType) : List SpecialScalar := all.filter (·.isUsedIn inputs)

end SpecialScalar

/-- The first of the items with the least key. -/
def leastBy {α : Type} (key : α → Nat) : List α → Option α
  | [] => none
  | x :: rest =>
    match leastBy key rest with
    | none => some x
    | some y => if key x ≤ key y then some x else some y

/-- Richer types come first. -/
def Location.rank : Location → Nat
  | .input => 0
  | .enum => 1
  | .scalar => 2
  | .output | .fieldReference => 3

namespace TypeRef

/-- The scalar that stands for the absence of a value. -/
def isNull (t : TypeRef) : Bool := t.location == .scalar && t.name == "Null"

/-- Types are compared by the rank of their location, and lists come before single values. -/
def preference (t : TypeRef) : Nat := 2 * t.location.rank + if t.isList then 0 else 1

end TypeRef

/-- The type that the declaration of a field names: the first of the most preferred ones, and null
only when the field accepts nothing else. -/
def InputField.mainType? (f : InputField) : Option TypeRef :=
  match leastBy TypeRef.preference (f.accepts.filter fun t => !t.isNull) with
  | some t => some t
  | none => f.accepts.head?

end GraphqlCrud.Schema
