import ScriptLint.Tree.Describe

/-! Scopes and the names they bind. Parameters and `var` variables belong to the nearest function or
to the program; `let` and `const` variables, function declarations and the parameters of handlers
belong to the nearest block. -/
namespace ScriptLint

inductive ScopeKind where
  | global | function | block | handler
  deriving Repr, DecidableEq

/-- The scopes that `var` variables belong to. -/
def ScopeKind.isBoundary : ScopeKind → Bool
  | .global | .function => true
  | .block | .handler => false

/-- How a name is declared. The own name of a function that is not a declaration is bound inside
it. -/
inductive DeclarationKind where
  | var | let_ | const | param | function | functionName | catchParam
  deriving Repr, DecidableEq

def DeclarationKind.label : DeclarationKind → String
  | .var => "Var"
  | .let_ => "Let"
  | .const => "Const"
  | .param => "Param"
  | .function => "Function"
  | .functionName => "FunctionName"
  | .catchParam => "CatchParam"

def VariableKind.declarationKind : VariableKind → DeclarationKind
  | .var => .var
  | .let_ => .let_
  | .const => .const

/-- A name and the node that declares it. -/
structure Declaration where
  name : String
  node : NodeId
  kind : DeclarationKind
  deriving Repr, DecidableEq

/-- The place of a scope among all scopes of a tree. -/
abbrev ScopeId := Nat

structure Scope where
  kind : ScopeKind
  parent : Option ScopeId
  /-- The node that opens the scope. -/
  node : NodeId
  /-- The function, or the program, that the scope is part of. -/
  function : NodeId
  /-- One declaration for each name. -/
  bindings : List Declaration

def Scope.lookup (s : Scope) (name : String) : Option Declaration :=
  s.bindings.find? (·.name == name)

/-- What a name stands for at some place: a variable of the function around that place, one of a
function or program further out, or nothing known. -/
inductive Binding where
  | local (declaration : NodeId) (kind : DeclarationKind) (function : NodeId)
  | outer (function : NodeId)
  | unresolved
  deriving Repr, DecidableEq

namespace Binding

def isLocal : Binding → Bool
  | .local .. => true
  | _ => false

def describe : Binding → String
  | .local declaration kind function =>
    describeRecord "Local" [("declaration",describeId declaration),("kind",kind.label),
      ("function",describeId function)]
  | .outer function => describeRecord "Outer" [("function",describeId function)]
  | .unresolved => describeRecord "Unresolved" []

end Binding

/-- A way to look names up. -/
abbrev Resolver := (name : String) → (place : NodeId) → Binding

end ScriptLint
