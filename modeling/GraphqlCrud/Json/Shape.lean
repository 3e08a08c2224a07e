import GraphqlCrud.Json.Basic
/-!
Shapes of JSON values. A check walks a tree in the order of the text and gives the first problem
that it meets; a part of a tree that passed its check can be looked up without further questions.
-/
namespace GraphqlCrud.Json

abbrev Check := Tree → Except Defect Unit

def Close.check : Close → Except Defect Unit
  | .closed => .ok ()
  | .unclosed d => .error d

mutual
/-- A value that nobody asks for is passed over. -/
def Tree.pass : Tree → Except Defect Unit
  | .broken _ _ passing => .error passing
  | .array items close => do
    passItems items
    close.check
  | .object entries close => do
    passEntries entries
    close.check
  | _ => .ok ()

def passItems : List Tree → Except Defect Unit
  | [] => .ok ()
  | item :: rest => do
    item.pass
    passItems rest

def passEntries : List Entry → Except Defect Unit
  | [] => .ok ()
  | .broken _ passing :: _ => .error passing
  | .member _ value :: rest => do
    value.pass
    passEntries rest
end

namespace Check

def text : Check
  | .text (.ok _) => .ok ()
  | t => .error t.mismatch

def flag : Check
  | .flag _ => .ok ()
  | t => .error t.mismatch

def optional (c : Check) : Check
  | .null => .ok ()
  | t => c t

def list (c : Check) : Check
  | .array items close => do
    items.forM c
    close.check
  | t => .error t.mismatch

/-- One of several words, written as a string or as an object whose one key is the word and whose
value is null. A value that starts in no such way is not looked at. -/
def choice (words : List String) : Check
  | .text (.ok word) => if word ∈ words then .ok () else .error .unfit
  | .text (.error d) => .error d
  | .broken .quoted reading _ => .error reading
  | .broken .absent reading _ => .error reading
  | .object [] close => do
    close.check
    .error .malformed
  | .object (.broken reading _ :: _) _ => .error reading
  | .object (.member (.error d) _ :: _) _ => .error d
  | .object (.member (.ok word) value :: rest) close =>
    if word ∈ words then
      match value with
      | .null => if rest.isEmpty then close.check else .error .malformed
      | other => .error other.mismatch
    else .error .unfit
  | _ => .error .malformed

/-- A part of a record: the key of its member, whether it may be absent, and its own check. -/
structure Part where
  key : String
  isRequired : Bool
  check : Check

/-- The members of a record, given the keys that came before. A known key may come once; the
members of other keys are passed over. -/
def members (parts : List Part) (seen : List String) : List Entry → Except Defect (List String)
  | [] => .ok seen
  | .broken reading _ :: _ => .error reading
  | .member (.error d) _ :: _ => .error d
  | .member (.ok key) value :: rest =>
    match parts.find? (·.key == key) with
    | none => do
      value.pass
      members parts seen rest
    | some part =>
      if key ∈ seen then .error .unfit
      else do
        part.check value
        members parts (key :: seen) rest

/-- The parts of a record written in order, without their keys. Parts at the end that may be
absent may be left out; more values than parts are malformed. -/
def positional : List Part → List Tree → Close → Except Defect Unit
  | [], [], close => close.check
  | [], _ :: _, _ => .error .malformed
  | parts, [], close => do
    close.check
    if parts.any (·.isRequired) then .error .unfit else .ok ()
  | part :: parts, item :: items, close => do
    part.check item
    positional parts items close

/-- A record: an object with the parts as members, or a list with the parts in order. -/
def record (parts : List Part) : Check
  | .object entries close => do
    let seen ← members parts [] entries
    close.check
    if parts.any fun p => p.isRequired && !seen.contains p.key then .error .unfit else .ok ()
  | .array items close => positional parts items close
  | t => .error t.mismatch

end Check

namespace Tree

def member? (key : String) : List Entry → Option Tree
  | [] => none
  | .member (.ok k) value :: rest => if k = key then some value else member? key rest
  | _ :: rest => member? key rest

def part? (t : Tree) (key : String) (place : Nat) : Option Tree :=
  match t with
  | .object entries _ => member? key entries
  | .array items _ => items[place]?
  | _ => none

def text? : Tree → Option String
  | .text (.ok s) => some s
  | _ => none

def flag? : Tree → Option Bool
  | .flag b => some b
  | _ => none

def items? : Tree → Option (List Tree)
  | .array items _ => some items
  | _ => none

def word? : Tree → Option String
  | .text (.ok word) => some word
  | .object [.member (.ok word) _] _ => some word
  | _ => none

end Tree
end GraphqlCrud.Json
