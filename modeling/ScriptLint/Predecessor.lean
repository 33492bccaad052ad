import ScriptLint.Tree.Basic

/-! The statement that runs right before another one. The first statement of a list is looked for
behind the statement that contains the list; the search ends at the top of a function and at the top
of a case, which may be entered from anywhere. -/
namespace ScriptLint

/-- The node in a list right before the one with a given number. -/
def previous? (id : NodeId) : List Tree → Option Tree
  | a :: b :: rest => if b.id = id then some a else previous? id (b :: rest)
  | _ => none

def Tree.isFunction (t : Tree) : Bool :=
  match t.shape with
  | .function .. => true
  | _ => false

/-- Searches from a node upwards. -/
def predecessorFrom (t : Tree) : List Tree → Option Tree
  | [] => none
  | parent :: above =>
    match parent.shape with
    | .block body | .program body =>
      match previous? t.id body, above with
      | some p, _ => some p
      | none, [] => none
      | none, outer :: _ => if outer.isFunction then none else predecessorFrom parent above
    | .switchCase _ consequent => previous? t.id consequent
    | .ifStatement .. | .forLoop .. | .forIn .. | .forOf .. | .whileLoop .. | .doWhile ..
    | .withStatement .. | .labeled .. | .tryStatement .. | .catchClause .. =>
      predecessorFrom parent above
    | _ => none

/-- The statement that runs immediately before the one at a position, if there is only one. -/
def Position.predecessor? (p : Position) : Option Tree := predecessorFrom p.node p.ancestors

end ScriptLint
