import ScriptLint.Config.Basic
import ScriptLint.Diagnostic
import ScriptLint.Scope.Graph

/-! Cops: the rules of the linter. -/
namespace ScriptLint

/-- A file as a cop sees it. -/
structure FileContext where
  file : SourceFile
  tree : SyntaxTree
  scopes : ScopeGraph

def FileContext.ofTree (file : SourceFile) (tree : SyntaxTree) : FileContext :=
  ⟨file,tree,ScopeGraph.build tree⟩

/-- A rule: its name, how serious its offenses are, whether it runs unless told otherwise, and the
offenses it finds at a node, given what is configured for it. -/
structure Cop where
  name : String
  severity : Severity
  enabledByDefault : Bool
  check : FileContext → Position → CopConfig → List Diagnostic

/-- An offense of a cop at a byte of a file. -/
def Cop.offense (cop : Cop) (file : SourceFile) (offset : Nat) (message : String) : Diagnostic :=
  .ofOffset file offset cop.severity cop.name message

/-- A cop that finds nothing. -/
def Cop.silent (name : String) : Cop := ⟨name,.convention,true,fun _ _ _ => []⟩

end ScriptLint
