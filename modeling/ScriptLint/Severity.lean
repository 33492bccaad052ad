/-! How serious an offense is. -/
namespace ScriptLint

inductive Severity where
  | convention | warning | error | fatal
  deriving Repr, DecidableEq

namespace Severity

def all : List Severity := [.convention,.warning,.error,.fatal]

def name : Severity → String
  | .convention => "convention"
  | .warning => "warning"
  | .error => "error"
  | .fatal => "fatal"

/-- The one-letter code. -/
def letter : Severity → Char
  | .convention => 'C'
  | .warning => 'W'
  | .error => 'E'
  | .fatal => 'F'

/-- From the least to the most serious. -/
def rank : Severity → Nat
  | .convention => 0
  | .warning => 1
  | .error => 2
  | .fatal => 3

/-- A severity by its name or its letter, both in any case of ASCII letters. -/
def ofText? (s : String) : Option Severity :=
  let wanted := s.toLower
  all.find? fun sev => sev.name == wanted || sev.letter.toLower.toString == wanted

/-- What is said of a text that names no severity. -/
def unknownMessage (s : String) : String :=
  "unknown severity `" ++ s ++ "` (expected convention, warning, error or fatal)"

end Severity
end ScriptLint
