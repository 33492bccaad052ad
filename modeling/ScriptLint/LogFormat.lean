/-! The form of log lines. -/
namespace ScriptLint

inductive LogFormat where
  | text | json
  deriving Repr, DecidableEq

/-- The form with a given name in any case; every other name means text. No letter outside ASCII
has one of the letters of `json` as its lower case, so ASCII letters suffice. -/
def LogFormat.ofText (s : String) : LogFormat := if s.toLower == "json" then .json else .text

end ScriptLint
