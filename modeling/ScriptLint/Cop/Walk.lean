import ScriptLint.Cop.Basic

/-! Running cops over a tree. -/
namespace ScriptLint

/-- A cop together with what is configured for it. -/
structure ActiveCop where
  cop : Cop
  config : CopConfig

/-- Gives an offense another severity, if there is one to give. -/
def Diagnostic.withSeverity (severity? : Option Severity) (d : Diagnostic) : Diagnostic :=
  { d with severity := severity?.getD d.severity }

/-- The offenses that a cop finds at a node. A severity that is configured takes the place of theirs. -/
def ActiveCop.offenses (a : ActiveCop) (ctx : FileContext) (p : Position) : List Diagnostic :=
  (a.cop.check ctx p a.config).map (.withSeverity a.config.severity?)

/-- The offenses that some cops find in a tree: node after node in source order, and at each node
cop after cop. -/
def FileContext.walk (ctx : FileContext) (cops : List ActiveCop) : List Diagnostic :=
  ctx.tree.preorder.flatMap fun p => cops.flatMap fun a => a.offenses ctx p

end ScriptLint
