import ScriptLint.Scope.Basic

/-! The scopes of a syntax tree and the meaning of names in it. One pass over the tree, from the root
down and in source order, opens the scopes and declares the names. -/
namespace ScriptLint

/-- The head of a loop that declares block-scoped variables. -/
def Tree.isBlockScopedDeclaration (t : Tree) : Bool :=
  match t.shape with
  | .variableDeclaration kind _ => kind.isBlockScoped
  | _ => false

/-- The identifier a parameter binds. -/
def Tree.parameterTarget (t : Tree) : Tree :=
  match t.shape with
  | .defaultParam target _ | .restParam target => target
  | _ => t

/-- The declaration of a name by a node, if the name is an identifier. -/
def declaration? (id : Tree) (node : NodeId) (kind : DeclarationKind) : Option Declaration :=
  id.name?.map fun name => ⟨name,node,kind⟩

/-- What the parameters of a function declare. -/
def parameterDeclarations (params : List Tree) : List Declaration :=
  params.filterMap fun p => declaration? p.parameterTarget p.parameterTarget.id .param

/-- What the declarators of a declaration declare. -/
def variableDeclarations (kind : VariableKind) (declarators : List Tree) : List Declaration :=
  declarators.flatMap fun d => d.declaredNames.map fun name => ⟨name,d.id,kind.declarationKind⟩

/-- Binds a name. A name that is bound already stays as it is: `var x; var x;` is one variable. -/
def Scope.declare (s : Scope) (d : Declaration) : Scope :=
  if (s.lookup d.name).isSome then s else { s with bindings := s.bindings ++ [d] }

/-- The scopes of a tree in the order in which they are opened, and the scope of each node. A node
that opens a scope is itself in the scope around it. -/
structure ScopeGraph where
  scopes : Array Scope
  scopeOf : Array ScopeId

namespace ScopeGraph

/-- Opens a scope that binds nothing yet, and gives its number. -/
def push (g : ScopeGraph) (kind : ScopeKind) (parent : Option ScopeId) (node function : NodeId) :
    ScopeId × ScopeGraph :=
  (g.scopes.size,{ g with scopes := g.scopes.push ⟨kind,parent,node,function,[]⟩ })

/-- The function or program that a scope is part of. -/
def functionOf (g : ScopeGraph) (i : ScopeId) : NodeId := (g.scopes[i]?.map Scope.function).getD 0

/-- Opens a scope within a function. -/
def pushInner (g : ScopeGraph) (kind : ScopeKind) (scope : ScopeId) (node : NodeId) :
    ScopeId × ScopeGraph :=
  g.push kind (some scope) node (g.functionOf scope)

/-- Binds names in a scope, one after the other. -/
def declare (g : ScopeGraph) (i : ScopeId) (ds : List Declaration) : ScopeGraph :=
  { g with scopes := g.scopes.modify i fun s => ds.foldl Scope.declare s }

/-- From a scope outwards, the first one that `var` variables belong to. -/
def nearestFunctionScope (g : ScopeGraph) (i : ScopeId) : ScopeId :=
  match g.scopes[i]? with
  | none => i
  | some s =>
    if s.kind.isBoundary then i
    else
      match s.parent with
      | some j => if j < i then g.nearestFunctionScope j else i
      | none => i

/-- Notes what a position in a scope declares, and gives the scope that the positions directly below
it are in. -/
def enter (g : ScopeGraph) (p : Position) (scope : ScopeId) : ScopeId × ScopeGraph :=
  match p.node.shape with
  | .function kind name params _ =>
    let (inner,g) := g.push .function (some scope) p.id p.id
    let g :=
      if kind = .declaration then
        g.declare scope (name.bind fun id => declaration? id p.id .function).toList
      else g.declare inner (name.bind fun id => declaration? id p.id .functionName).toList
    (inner,g.declare inner (parameterDeclarations params))
  | .block _ =>
    -- The block of a function or of a handler shares the scope of its owner.
    match p.parent?.map Tree.shape with
    | some (.function ..) | some (.catchClause ..) => (scope,g)
    | _ => g.pushInner .block scope p.id
  | .switchStatement .. => g.pushInner .block scope p.id
  | .forLoop (some head) .. | .forIn head .. | .forOf head .. =>
    if head.isBlockScopedDeclaration then g.pushInner .block scope p.id else (scope,g)
  | .catchClause param _ =>
    let (inner,g) := g.pushInner .handler scope p.id
    (inner,g.declare inner (param.bind fun id => declaration? id id.id .catchParam).toList)
  | .variableDeclaration kind declarators =>
    let target := if kind.isBlockScoped then scope else g.nearestFunctionScope scope
    (scope,g.declare target (variableDeclarations kind declarators))
  | _ => (scope,g)

/-- Notes the scope of a position and enters it. -/
def visit (g : ScopeGraph) (p : Position) (scope : ScopeId) : ScopeId × ScopeGraph :=
  enter { g with scopeOf := g.scopeOf.setIfInBounds p.id scope } p scope

/-- Visits the positions on a stack, each in its scope, and all positions below them. -/
def run (g : ScopeGraph) : List (Position × ScopeId) → ScopeGraph
  | [] => g
  | (p,scope) :: stack =>
    let (inner,g) := g.visit p scope
    g.run ((p.children.map fun c => (c,inner)) ++ stack)
termination_by stack => (stack.flatMap fun e => e.1.preorder).length
decreasing_by simp [Position.preorder_eq_children p,List.flatMap_map]

def build (t : SyntaxTree) : ScopeGraph :=
  let g : ScopeGraph := ⟨#[],Array.replicate t.size 0⟩
  match t.root? with
  | none => g
  | some root =>
    let (global,g) := g.push .global none root.id root.id
    g.run [(⟨root,[]⟩,global)]

/-- A scope and those around it, from the inside out. -/
def chain (g : ScopeGraph) (i : ScopeId) : List Scope :=
  match g.scopes[i]? with
  | none => []
  | some s =>
    match s.parent with
    | some j => if j < i then s :: g.chain j else [s]
    | none => [s]

/-- The nearest declaration of a name in a list of scopes, with its scope. -/
def nearest? (name : String) : List Scope → Option (Scope × Declaration)
  | [] => none
  | s :: outer =>
    match s.lookup name with
    | some d => some (s,d)
    | none => nearest? name outer

/-- The meaning of a name at a node. -/
def resolve (g : ScopeGraph) (name : String) (place : NodeId) : Binding :=
  match (g.scopeOf[place]?.map g.chain).getD [] with
  | [] => .unresolved
  | here :: outer =>
    match nearest? name (here :: outer) with
    | some (s,d) =>
      if s.function = here.function then .local d.node d.kind here.function else .outer s.function
    | none => .unresolved

end ScopeGraph
end ScriptLint
