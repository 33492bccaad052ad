import ScriptLint.Cop.Basic
import ScriptLint.Fault
import ScriptLint.Redundancy

/-! The cops that come with the linter. -/
namespace ScriptLint

/-- Reports files that cannot be parsed. It looks at no nodes, since such a file has none. -/
def syntaxCop : Cop where
  name := "Lint/Syntax"
  severity := .fatal
  enabledByDefault := true
  check _ _ _ := []

/-- The offense of a file that cannot be parsed. -/
def syntaxOffense (file : SourceFile) (e : SyntaxError) : Diagnostic :=
  syntaxCop.offense file e.offset e.fault.message

def redundancyName : String := "Style/RedundantAssignment"

/-- The offenses at a node: those of a return of an identifier that is not needed. -/
def redundancyCheck (ctx : FileContext) (p : Position) : List Diagnostic :=
  match p.node.returnedName with
  | .error _ => []
  | .ok _ =>
    match checkReturn ctx.scopes.resolve p with
    | .ok (some found) =>
      [.ofOffset ctx.file found.node.span.start .convention redundancyName found.redundancy.message]
    | .ok none => []
    | .error _ => []

/-- Reports variables and assignments that only serve to be returned by the next statement. -/
def redundancyCop : Cop where
  name := redundancyName
  severity := .convention
  enabledByDefault := true
  check ctx p _ := redundancyCheck ctx p

end ScriptLint
