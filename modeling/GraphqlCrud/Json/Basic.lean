/-!
JSON as it is found in a text, which may stop making sense on the way. A text is read from left to
right into a tree whose last branch may be broken, so that whoever walks the tree in order meets
the problems in the order in which the text has them.
-/
namespace GraphqlCrud.Json

/-- Why a text is refused: it ends too early, it is not JSON, or it is JSON of another shape. -/
inductive Defect where
  | cutShort
  | malformed
  | unfit
deriving Repr, DecidableEq

/-- What stands where a value is broken: the quote of a string, another value, or none. -/
inductive Stump where
  | quoted
  | bare
  | absent
deriving Repr, DecidableEq

inductive Close where
  | closed
  | unclosed (defect : Defect)
deriving Repr, DecidableEq

mutual
/-- A text is read for its content or only passed over. Passing over is less strict: it accepts
numbers of any size and surrogate escapes that stand alone. Where the two differ a tree holds both
results. -/
inductive Tree where
  | null
  | flag (value : Bool)
  /-- A number, and what reading it for its content objects to. -/
  | number (fault : Option Defect)
  | text (content : Except Defect String)
  | array (items : List Tree) (close : Close)
  | object (entries : List Entry) (close : Close)
  | broken (stump : Stump) (reading passing : Defect)

/-- An entry of an object: a member, or what is left of one whose key is broken. -/
inductive Entry where
  | member (key : Except Defect String) (value : Tree)
  | broken (reading passing : Defect)
end

namespace Tree

/-- What is wrong with a tree that is read as a value of another kind. -/
def mismatch : Tree → Defect
  | .number (some d) => d
  | .text (.error d) => d
  | .broken _ reading _ => reading
  | _ => .unfit

end Tree
end GraphqlCrud.Json
