import GraphqlCrud.Lint.Basic
import GraphqlCrud.Text.Lowercase
/-!
Models with one name. Two models of the same name have the same resolvers, which is an error. Names
that differ only by letter case share a directory on some file systems, which is worth a warning.
-/
namespace GraphqlCrud.Lint

/-- A model that comes after another of its name, or of its name in other letter case. -/
structure Collision where
  model : String
  earlier : String
deriving Repr, DecidableEq

/-- The collisions among names that come after others. The first name of each lowercase form is the
one that all later names are compared with. -/
def collisionsAfter (seen : List (String × String)) : List String → List Collision
  | [] => []
  | name :: rest =>
    let form := Text.lowercase name
    match seen.lookup form with
    | some earlier => { model := name, earlier } :: collisionsAfter seen rest
    | none => collisionsAfter ((form, name) :: seen) rest

def collisions (names : List String) : List Collision := collisionsAfter [] names

def Collision.finding (c : Collision) : Finding :=
  if c.earlier = c.model then
    { severity := .error, phase
      message := "duplicate model '" ++ c.model ++ "'"
      location := some (modelPlace c.model) }
  else
    { severity := .warning, phase
      message :=
        "model '" ++ c.model ++ "' differs from '" ++ c.earlier ++ "' only by case; " ++
          "their output directories collide on case-insensitive filesystems"
      location := some (modelPlace c.model) }

def duplicateModel : Lint where
  name := "duplicate-model"
  description := "Detect models whose generated names or directories would collide"
  check document _ := (collisions (document.models.map (·.name))).map (·.finding)

end GraphqlCrud.Lint
