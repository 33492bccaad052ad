import ScriptLint.Report.Annotation
import ScriptLint.Report.Json
import ScriptLint.Report.Text

/-! The forms a report can have. -/
namespace ScriptLint

inductive ReportFormat where
  | text | json | github
  deriving Repr, DecidableEq

namespace ReportFormat

def name : ReportFormat → String
  | .text => "text"
  | .json => "json"
  | .github => "github"

def ofText? (s : String) : Option ReportFormat :=
  [text,json,github].find? (·.name == s)

/-- The report of some offenses found in a number of files. -/
def report (format : ReportFormat) (ds : List Diagnostic) (files : Nat) : String :=
  match format with
  | .text => Report.text ds files
  | .json => Report.json ds files
  | .github => Report.annotations ds

end ReportFormat
end ScriptLint
