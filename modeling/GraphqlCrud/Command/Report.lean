import GraphqlCrud.Text.Basic
/-!
Reports: what a command says when it has done its work, line by line.
-/
namespace GraphqlCrud.Command

/-- A line of a report. Warnings are written apart from all else. -/
inductive ReportLine where
  | plain (text : String)
  | warning (text : String)
deriving Repr, DecidableEq

namespace ReportLine

def blank : ReportLine := .plain ""

def heading (text : String) : ReportLine := .plain (text ++ ":")

def entry (key value : String) : ReportLine := .plain (key ++ ": " ++ value)

def detail (key value : String) : ReportLine := .plain ("  " ++ key ++ ": " ++ value)

def item (text : String) : ReportLine := .plain ("  - " ++ text)

def divider (label : String) : ReportLine := .plain ("── " ++ label ++ " ──")

def output : ReportLine → String
  | .plain text => text ++ "\n"
  | .warning _ => ""

def errorOutput : ReportLine → String
  | .plain _ => ""
  | .warning text => "warning: " ++ text ++ "\n"

end ReportLine

abbrev Report := List ReportLine

namespace Report

def output (r : Report) : String := String.join (r.map (·.output))

def errorOutput (r : Report) : String := String.join (r.map (·.errorOutput))

end Report
end GraphqlCrud.Command
