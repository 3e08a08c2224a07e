import GraphqlCrud.Config.Basic
import GraphqlCrud.Text.Basic
import GraphqlCrud.Text.Blank
/-!
Markers in documentation comments. A marker `@Pothos.omit(…)` leaves a field out of the input types
of the categories that it lists, or out of everything when it lists none; what remains of the
comment without its markers is the description.
-/
namespace GraphqlCrud

inductive Omission where
  | nowhere
  | everywhere
  | inputs (categories : List InputCategory)
deriving Repr, DecidableEq

namespace Omission

def omitsObject : Omission → Bool
  | .everywhere => true
  | _ => false

def omitsInput (category : InputCategory) : Omission → Bool
  | .nowhere => false
  | .everywhere => true
  | .inputs categories => categories.contains category

/-- What two markers say together. The categories of the second that the first has not are added
at the end. -/
def merge : Omission → Omission → Omission
  | .everywhere, _ => .everywhere
  | _, .everywhere => .everywhere
  | .nowhere, other => other
  | other, .nowhere => other
  | .inputs first, .inputs second =>
    .inputs (second.foldl (fun held c => if held.contains c then held else held ++ [c]) first)

/-- What a marker with these arguments says. Unknown names are passed over, but they are names. -/
def ofArguments (arguments : String) : Omission :=
  match ((Text.parts ',' arguments).map Text.trim).filter (· != "") with
  | [] => .everywhere
  | names => .inputs (names.filterMap InputCategory.ofWord?)

end Omission

structure DocComment where
  description : Option String := none
  omission : Omission := .nowhere
deriving Repr, DecidableEq

namespace DocComment

def markerStart : List Char := "@Pothos.omit(".toList

/-- The text around the markers, and the arguments of each marker in order. A marker that is not
closed is text. -/
def split (s : List Char) : List Char × List (List Char) :=
  match _ : Text.cut? markerStart s with
  | none => (s, [])
  | some (before, after) =>
    match _ : Text.cut? [')'] after with
    | none => (s, [])
    | some (arguments, rest) =>
      let (text, more) := split rest
      (before ++ text, arguments :: more)
termination_by s.length
decreasing_by
  have h₁ := Text.length_of_cut? ‹Text.cut? markerStart s = _›
  have h₂ := Text.length_of_cut? ‹Text.cut? [')'] after = _›
  simp only [List.length_cons, List.length_nil] at h₂
  omega

/-- Takes a comment apart. No comment says nothing. -/
def parse : Option String → DocComment
  | none => {}
  | some comment =>
    let (text, markers) := split comment.toList
    let description := Text.trim (String.ofList text)
    { description := if description = "" then none else some description
      omission :=
        markers.foldl (fun o arguments => o.merge (.ofArguments (String.ofList arguments))) .nowhere }

end DocComment
end GraphqlCrud
