import ScriptLint.Severity
import ScriptLint.Source

/-! Offenses, and the order in which they are reported. -/
namespace ScriptLint

structure Diagnostic where
  path : String
  location : Location
  severity : Severity
  copName : String
  message : String
  deriving Repr, DecidableEq

namespace Diagnostic

/-- An offense at a byte of a file. -/
def ofOffset (file : SourceFile) (offset : Nat) (severity : Severity) (copName message : String) :
    Diagnostic :=
  ⟨file.path,file.location offset,severity,copName,message⟩

def display (d : Diagnostic) : String :=
  d.path ++ ":" ++ toString d.location.line ++ ":" ++ toString d.location.column ++ ": " ++
    d.severity.letter.toString ++ ": " ++ d.copName ++ ": " ++ d.message

/-- Compares by path, line, column and cop name. Texts compare by their code points, which is the
order of their bytes. -/
def order (a b : Diagnostic) : Ordering :=
  (compare a.path b.path).then <|
    (compare a.location.line b.location.line).then <|
      (compare a.location.column b.location.column).then (compare a.copName b.copName)

/-- The order of reports. Offenses that compare alike stay in the order in which they were found. -/
def sort (ds : List Diagnostic) : List Diagnostic := ds.mergeSort fun a b => (order a b).isLE

end Diagnostic

/-- Whether an offense is at least as serious as a level, which makes a run fail. -/
def exitCode (ds : List Diagnostic) (level : Severity) : Nat :=
  if ds.any fun d => level.rank ≤ d.severity.rank then 1 else 0

end ScriptLint
