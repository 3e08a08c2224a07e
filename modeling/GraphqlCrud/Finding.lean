/-!
Findings: what a run has to say about its schema and its options.
-/
namespace GraphqlCrud

/-- An error stops a run; a warning asks for attention; all else is information. -/
inductive Severity where
  | error
  | warning
  | info
deriving Repr, DecidableEq

def Severity.all : List Severity := [.error, .warning, .info]

def Severity.word : Severity → String
  | .error => "error"
  | .warning => "warning"
  | .info => "info"

/-- A finding, the phase that made it, and the lint and the place in the schema or the options that
it is about, where there are such. -/
structure Finding where
  severity : Severity
  phase : String
  lint : Option String := none
  message : String
  location : Option String := none
deriving Repr, DecidableEq

namespace Finding

def isError (f : Finding) : Bool := f.severity == .error

def isWarning (f : Finding) : Bool := f.severity == .warning

/-- The finding under the name of a lint, unless it has one. -/
def ofLint (name : String) (f : Finding) : Finding := { f with lint := some (f.lint.getD name) }

def text (f : Finding) : String :=
  let lint := match f.lint with
    | some name => "[" ++ name ++ "]"
    | none => ""
  let location := match f.location with
    | some place => " (at " ++ place ++ ")"
    | none => ""
  f.severity.word ++ lint ++ ": " ++ f.message ++ location

end Finding
end GraphqlCrud
