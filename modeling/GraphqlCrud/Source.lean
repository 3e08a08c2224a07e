import GraphqlCrud.Config.Reader
import GraphqlCrud.Schema.Reader
import GraphqlCrud.Storage.Basic
/-!
Loading the schema and the options of a run from their files.
-/
namespace GraphqlCrud

/-- Why a file cannot be loaded: it cannot be read, or its text is refused. -/
inductive LoadFailure where
  | schemaFile (path : String)
  | schemaText (text : String) (defect : Json.Defect)
  | configFile (path : String)
  | configText (refusal : Config.Refusal)
deriving Repr, DecidableEq

namespace LoadFailure

def message : LoadFailure → String
  | .schemaFile path => "failed to read schema description '" ++ path ++ "'"
  | .schemaText .. => Schema.unreadableMessage
  | .configFile path => "failed to read config file '" ++ path ++ "'"
  | .configText refusal => refusal.message

def code : LoadFailure → String
  | .schemaFile _ => "pothos::schema::io"
  | .schemaText .. => "pothos::schema::parse"
  | .configFile _ => "pothos::config::io"
  | .configText (.unreadable _) => "pothos::config::parse"
  | .configText (.blank ..) => "pothos::config::validation"

end LoadFailure

def readSchema (text : String) : Except LoadFailure Schema.Document :=
  (Schema.Document.read text).mapError (.schemaText text)

def readConfig (text : String) : Except LoadFailure Config :=
  (Config.read text).mapError .configText

variable {m : Type → Type} [Monad m] [Storage m]

def loadSchema (path : String) : m (Except LoadFailure Schema.Document) := do
  match ← Storage.read? path with
  | some text => return readSchema text
  | none => return .error (.schemaFile path)

/-- Loads the options from a file; without a file they are the defaults. -/
def loadConfig : Option String → m (Except LoadFailure Config)
  | none => return .ok {}
  | some path => do
    match ← Storage.read? path with
    | some text => return readConfig text
    | none => return .error (.configFile path)

end GraphqlCrud
