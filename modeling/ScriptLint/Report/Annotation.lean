import ScriptLint.Diagnostic

/-! The report as workflow commands: one annotation on a line for each offense. -/
namespace ScriptLint.Report

/-- The two levels of annotations. -/
def annotationLevel : Severity → String
  | .convention | .warning => "warning"
  | .error | .fatal => "error"

def annotate (d : Diagnostic) : String :=
  "::" ++ annotationLevel d.severity ++ " file=" ++ d.path ++ ",line=" ++ toString d.location.line ++
    ",col=" ++ toString d.location.column ++ "::" ++ d.copName ++ ": " ++ d.message

def annotations (ds : List Diagnostic) : String :=
  String.join (ds.map fun d => annotate d ++ "\n")

end ScriptLint.Report
