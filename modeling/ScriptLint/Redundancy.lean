import ScriptLint.Predecessor
import ScriptLint.Scope.Graph
import ScriptLint.Source

/-! Variables and assignments that only serve to be returned by the next statement. -/
namespace ScriptLint

inductive Redundancy where
  | variable | assignment
  deriving Repr, DecidableEq

def Redundancy.message : Redundancy → String
  | .variable => "Redundant variable."
  | .assignment => "Redundant assignment."

/-- A redundant declarator or the target of a redundant assignment. -/
structure Finding where
  redundancy : Redundancy
  node : Tree

/-- Why a statement and the one before it cannot be judged. -/
inductive Misjudgment where
  | notReturn (found : Tree)
  | notIdentifier
  | notDeclarator
  | notLocal (name : String) (found : Binding)

def Misjudgment.message : Misjudgment → String
  | .notReturn found => "expected a return statement, found " ++ found.describe
  | .notIdentifier => "return argument is not a bare identifier"
  | .notDeclarator => "variable declaration holds a non-declarator node"
  | .notLocal name found =>
    "`" ++ name ++ "` declared right before the return resolved to " ++ found.describe

/-- The identifier that a statement returns, and its name. -/
def Tree.returnedName (t : Tree) : Except Misjudgment (Tree × String) :=
  match t.shape with
  | .returnStatement argument =>
    match argument with
    | none => .error .notIdentifier
    | some argument =>
      match argument.name? with
      | some name => .ok (argument,name)
      | none => .error .notIdentifier
  | _ => .error (.notReturn t)

/-- Judges the statement before a return of the identifier `argument`: it is redundant when it
writes the very variable that is returned, and that variable belongs to the function returned from.
The own name of a function cannot be written. -/
def judge (resolve : Resolver) (argument : Tree) (name : String) (before : Tree) :
    Except Misjudgment (Option Finding) :=
  match before.shape with
  | .variableDeclaration _ declarators =>
    match declarators.getLast? with
    | none => .ok none
    | some last =>
      match last.shape with
      | .declarator id _ =>
        if id.name? = some name then
          let written := resolve name before.id
          if written.isLocal then
            if resolve name argument.id = written then .ok (some ⟨.variable,last⟩) else .ok none
          else .error (.notLocal name written)
        else .ok none
      | _ => .error .notDeclarator
  | .expressionStatement expression =>
    match expression.shape with
    | .assignment .assign target _ =>
      if target.name? = some name then
        match resolve name before.id with
        | .local _ .functionName _ => .ok none
        | .local declaration kind function =>
          if resolve name argument.id = .local declaration kind function then
            .ok (some ⟨.assignment,target⟩)
          else .ok none
        | .outer _ | .unresolved => .ok none
      else .ok none
    | _ => .ok none
  | _ => .ok none

/-- Judges a return together with the statement before it. -/
def classify (resolve : Resolver) (ret : Tree) (before : Option Tree) :
    Except Misjudgment (Option Finding) :=
  match ret.returnedName with
  | .error e => .error e
  | .ok (argument,name) =>
    match before with
    | none => .ok none
    | some before => judge resolve argument name before

/-- Judges the return at a position together with the statement that runs before it. -/
def checkReturn (resolve : Resolver) (p : Position) : Except Misjudgment (Option Finding) :=
  classify resolve p.node p.predecessor?

end ScriptLint
