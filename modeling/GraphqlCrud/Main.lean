import GraphqlCrud.Command.Execution
/-!
The program: a command line on the files of the machine.
-/
namespace GraphqlCrud

def attempt {α : Type} (action : IO α) (otherwise : IO.Error → α) : IO α := do
  try
    action
  catch e =>
    return otherwise e

instance : Storage IO where
  read? path := attempt (some <$> IO.FS.readFile path) fun _ => none
  isDirectory path :=
    if path = "" then return false
    else attempt ((fun _ => true) <$> IO.FS.realPath (path ++ "/.")) fun _ => false
  makeDirectory path :=
    if path = "" then return true
    else attempt ((fun _ => true) <$> IO.FS.createDirAll path) fun _ => false
  write path content :=
    attempt ((fun _ => true) <$> IO.FS.writeFile path content) fun _ => false
  remove path :=
    attempt ((fun _ => .removed) <$> IO.FS.removeDirAll path) fun
      | .noFileOrDirectory .. => .absent
      | _ => .failed

def usage : String :=
  "usage: graphql-crud [-v] (check | generate | clean) [-s FILE] [-c FILE] [-v]\n" ++
    "         generate, clean: [-o DIR] [--dry-run]\n" ++
    "         generate: [--visualize]\n"

namespace Command

def Ending.complaint : Ending → String
  | .done report | .rejected report => report.errorOutput
  | .failed failure => "Error: " ++ ": ".intercalate failure.messages ++ "\n"
  | .unloaded failure => failure.code ++ ": " ++ failure.message ++ "\n"
  | .misused => usage

def Ending.answer : Ending → String
  | .done report | .rejected report => report.output
  | .failed _ | .unloaded _ | .misused => ""

end Command
end GraphqlCrud

def main (words : List String) : IO UInt32 := do
  let override ← IO.getEnv GraphqlCrud.Config.pathVariable
  let ending : GraphqlCrud.Command.Ending ← GraphqlCrud.Command.execute override words
  IO.print ending.answer
  IO.eprint ending.complaint
  return ending.exitCode.toUInt32
