import ScriptLint.Diagnostic

/-! The report for people: one line for each offense, an empty line and a summary. -/
namespace ScriptLint.Report

/-- A number of things, with the noun in the plural unless there is one. -/
def counted (n : Nat) (noun : String) : String :=
  toString n ++ " " ++ noun ++ if n = 1 then "" else "s"

def summary (files offenses : Nat) : String :=
  counted files "file" ++ " inspected, " ++ counted offenses "offense" ++ " detected"

def text (ds : List Diagnostic) (files : Nat) : String :=
  String.join (ds.map fun d => d.display ++ "\n") ++ "\n" ++ summary files ds.length ++ "\n"

end ScriptLint.Report
