import ScriptLint.Token.Basic
import ScriptLint.Tree.Shape

/-! Syntax trees. Every node has a number, the place in which it was finished: a node is finished
after the nodes below it, and those in source order. -/
namespace ScriptLint

/-- The number of a node. -/
abbrev NodeId := Nat

inductive Tree where
  | node (id : NodeId) (span : Span) (shape : Shape Tree)

namespace Tree

def id : Tree → NodeId
  | .node id _ _ => id

def span : Tree → Span
  | .node _ span _ => span

def shape : Tree → Shape Tree
  | .node _ _ shape => shape

def children (t : Tree) : List Tree := t.shape.children

/-- The name of an identifier node. -/
def name? (t : Tree) : Option String := t.shape.name?

theorem sizeOf_child_lt {t c : Tree} (h : c ∈ t.children) : sizeOf c < sizeOf t := by
  cases t with
  | node i s sh =>
    have := Shape.sizeOf_lt_of_mem_children h
    simp only [shape] at this
    simp only [node.sizeOf_spec]
    omega

/-- What holds of a node whenever it holds of the nodes below it holds of every node. -/
theorem below_induction {P : Tree → Prop} (step : ∀ t, (∀ c ∈ t.children, P c) → P t) (t : Tree) :
    P t :=
  step t fun c _ => below_induction step c
termination_by t
decreasing_by exact sizeOf_child_lt ‹_›

/-- A node and all below it, each before those below itself. -/
def preorder (t : Tree) : List Tree := t :: t.children.attach.flatMap fun c => preorder c.1
termination_by t
decreasing_by exact sizeOf_child_lt c.2

/-- A node and all below it, each after those below itself. -/
def postorder (t : Tree) : List Tree := (t.children.attach.flatMap fun c => postorder c.1) ++ [t]
termination_by t
decreasing_by exact sizeOf_child_lt c.2

/-- The names a node declares or stands for. -/
def declaredNames (t : Tree) : List String :=
  match t.shape with
  | .variableDeclaration _ declarators => declarators.filterMap fun d =>
      match d.shape with
      | .declarator id _ => id.name?
      | _ => none
  | .declarator id _ => id.name?.toList
  | .identifier name => [name]
  | .defaultParam target _ | .restParam target => target.name?.toList
  | .function _ (some name) _ _ => name.name?.toList
  | .catchClause (some param) _ => param.name?.toList
  | _ => []

end Tree

/-- A node of a tree together with the nodes above it, the nearest first. -/
structure Position where
  node : Tree
  ancestors : List Tree

namespace Position

def id (p : Position) : NodeId := p.node.id

def parent? (p : Position) : Option Tree := p.ancestors.head?

/-- The position of a node directly below. -/
def child (p : Position) (c : Tree) : Position := ⟨c,p.node :: p.ancestors⟩

def children (p : Position) : List Position := p.node.children.map p.child

/-- The position and all below it, each before those below itself. -/
def preorder (p : Position) : List Position :=
  p :: p.node.children.attach.flatMap fun c => preorder (p.child c.1)
termination_by p.node
decreasing_by exact Tree.sizeOf_child_lt c.2

/-- The position and all below it, each after those below itself. -/
def postorder (p : Position) : List Position :=
  (p.node.children.attach.flatMap fun c => postorder (p.child c.1)) ++ [p]
termination_by p.node
decreasing_by exact Tree.sizeOf_child_lt c.2

theorem preorder_eq_children (p : Position) : p.preorder = p :: p.children.flatMap preorder := by
  rw [preorder,children]
  simp [List.flatMap,Function.comp_def]

/-- Takes positions off a stack until none is left, and puts those directly below one that is taken
off in its place. -/
def unstack : List Position → List Position
  | [] => []
  | p :: stack => p :: unstack (p.children ++ stack)
termination_by stack => (stack.flatMap preorder).length
decreasing_by simp [preorder_eq_children p]

/-- Working off a stack is going through each of its positions in turn. -/
theorem unstack_eq (stack : List Position) : unstack stack = stack.flatMap preorder := by
  induction stack using unstack.induct with
  | case1 => simp [unstack]
  | case2 p stack ih =>
    rw [unstack,ih,List.flatMap_append,List.flatMap_cons,preorder_eq_children,List.cons_append]

end Position

/-- A syntax tree, or none. -/
structure SyntaxTree where
  root? : Option Tree

namespace SyntaxTree

def empty : SyntaxTree := ⟨none⟩

/-- All positions in source order, the root first. -/
def preorder (t : SyntaxTree) : List Position :=
  match t.root? with
  | some root => Position.unstack [⟨root,[]⟩]
  | none => []

/-- All positions in the order in which the nodes were finished, the root last. The position of the
node with number `i` is entry `i`. -/
def positions (t : SyntaxTree) : Array Position :=
  match t.root? with
  | some root => (Position.postorder ⟨root,[]⟩).toArray
  | none => #[]

def size (t : SyntaxTree) : Nat := t.positions.size

/-- Notes a node as the one above each node directly below it. -/
def link (links : Array (Option NodeId)) (p : Position) : Array (Option NodeId) :=
  p.node.children.foldl (fun links c => links.setIfInBounds c.id (some p.id)) links

/-- The number of the node above each node. The nodes are linked to those below them one after the
other, in the order of their numbers. -/
def parents (t : SyntaxTree) : Array (Option NodeId) :=
  t.positions.foldl link (Array.replicate t.size none)

/-- The number of the node directly above the node with a number. -/
def parentId? (t : SyntaxTree) (i : NodeId) : Option NodeId := t.parents[i]?.join

end SyntaxTree
end ScriptLint
