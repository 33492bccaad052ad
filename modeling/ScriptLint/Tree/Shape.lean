import ScriptLint.Tree.Operator

/-! The shapes of syntax nodes over a type `α` that stands for the nodes below: the nodes
themselves in a tree, their numbers in a listing. -/
namespace ScriptLint

inductive Shape (α : Type) where
  | program (body : List α)
  | function (kind : FunctionKind) (name : Option α) (params : List α) (body : α)
  | block (body : List α)
  | variableDeclaration (kind : VariableKind) (declarators : List α)
  | declarator (id : α) (value : Option α)
  | expressionStatement (expression : α)
  | returnStatement (argument : Option α)
  | ifStatement (test consequent : α) (alternate : Option α)
  | switchStatement (discriminant : α) (cases : List α)
  | switchCase (test : Option α) (consequent : List α)
  | forLoop (head test step : Option α) (body : α)
  | forIn (left right body : α)
  | forOf (left right body : α)
  | whileLoop (test body : α)
  | doWhile (body test : α)
  | tryStatement (body : α) (handler finalizer : Option α)
  | catchClause (param : Option α) (body : α)
  | labeled (label body : α)
  | withStatement (subject body : α)
  | breakStatement (label : Option α)
  | continueStatement (label : Option α)
  | throwStatement (argument : α)
  | empty
  | debugger
  | identifier (name : String)
  | literal (kind : LiteralKind) (raw : String)
  | this
  | array (elements : List (Option α))
  | object (properties : List α)
  | property (key value : α) (computed : Bool)
  | shorthand (name : α)
  | spread (argument : α)
  | assignment (operator : AssignmentOperator) (target value : α)
  | binary (operator : BinaryOperator) (left right : α)
  | unary (operator : UnaryOperator) (argument : α)
  | update (operator : UpdateOperator) (leading : Bool) (argument : α)
  | conditional (test consequent alternate : α)
  | call (callee : α) (arguments : List α) (optional : Bool)
  | construct (callee : α) (arguments : List α)
  | member (owner key : α) (computed optional : Bool)
  | sequence (expressions : List α)
  | defaultParam (target value : α)
  | restParam (target : α)

namespace Shape
variable {α β : Type}

/-- The nodes directly below, in source order. The one node of a shorthand property is both its key
and its value and is listed once. -/
def children : Shape α → List α
  | .program body | .block body => body
  | .function _ name params body => name.toList ++ params ++ [body]
  | .variableDeclaration _ declarators => declarators
  | .declarator id value => id :: value.toList
  | .expressionStatement expression => [expression]
  | .returnStatement argument => argument.toList
  | .ifStatement test consequent alternate => test :: consequent :: alternate.toList
  | .switchStatement discriminant cases => discriminant :: cases
  | .switchCase test consequent => test.toList ++ consequent
  | .forLoop head test step body => head.toList ++ test.toList ++ step.toList ++ [body]
  | .forIn left right body | .forOf left right body => [left,right,body]
  | .whileLoop test body => [test,body]
  | .doWhile body test => [body,test]
  | .tryStatement body handler finalizer => body :: (handler.toList ++ finalizer.toList)
  | .catchClause param body => param.toList ++ [body]
  | .labeled label body => [label,body]
  | .withStatement subject body => [subject,body]
  | .breakStatement label | .continueStatement label => label.toList
  | .throwStatement argument | .spread argument => [argument]
  | .unary _ argument | .update _ _ argument => [argument]
  | .empty | .debugger | .identifier _ | .literal _ _ | .this => []
  | .array elements => elements.filterMap id
  | .object properties => properties
  | .property key value _ => [key,value]
  | .shorthand name => [name]
  | .assignment _ target value => [target,value]
  | .binary _ left right => [left,right]
  | .conditional test consequent alternate => [test,consequent,alternate]
  | .call callee arguments _ => callee :: arguments
  | .construct callee arguments => callee :: arguments
  | .member owner key _ _ => [owner,key]
  | .sequence expressions => expressions
  | .defaultParam target value => [target,value]
  | .restParam target => [target]

/-- The same shape over other nodes. -/
def map (f : α → β) : Shape α → Shape β
  | .program body => .program (body.map f)
  | .function kind name params body => .function kind (name.map f) (params.map f) (f body)
  | .block body => .block (body.map f)
  | .variableDeclaration kind declarators => .variableDeclaration kind (declarators.map f)
  | .declarator id value => .declarator (f id) (value.map f)
  | .expressionStatement expression => .expressionStatement (f expression)
  | .returnStatement argument => .returnStatement (argument.map f)
  | .ifStatement test consequent alternate =>
    .ifStatement (f test) (f consequent) (alternate.map f)
  | .switchStatement discriminant cases => .switchStatement (f discriminant) (cases.map f)
  | .switchCase test consequent => .switchCase (test.map f) (consequent.map f)
  | .forLoop head test step body => .forLoop (head.map f) (test.map f) (step.map f) (f body)
  | .forIn left right body => .forIn (f left) (f right) (f body)
  | .forOf left right body => .forOf (f left) (f right) (f body)
  | .whileLoop test body => .whileLoop (f test) (f body)
  | .doWhile body test => .doWhile (f body) (f test)
  | .tryStatement body handler finalizer =>
    .tryStatement (f body) (handler.map f) (finalizer.map f)
  | .catchClause param body => .catchClause (param.map f) (f body)
  | .labeled label body => .labeled (f label) (f body)
  | .withStatement subject body => .withStatement (f subject) (f body)
  | .breakStatement label => .breakStatement (label.map f)
  | .continueStatement label => .continueStatement (label.map f)
  | .throwStatement argument => .throwStatement (f argument)
  | .empty => .empty
  | .debugger => .debugger
  | .identifier name => .identifier name
  | .literal kind raw => .literal kind raw
  | .this => .this
  | .array elements => .array (elements.map (Option.map f))
  | .object properties => .object (properties.map f)
  | .property key value computed => .property (f key) (f value) computed
  | .shorthand name => .shorthand (f name)
  | .spread argument => .spread (f argument)
  | .assignment operator target value => .assignment operator (f target) (f value)
  | .binary operator left right => .binary operator (f left) (f right)
  | .unary operator argument => .unary operator (f argument)
  | .update operator leading argument => .update operator leading (f argument)
  | .conditional test consequent alternate => .conditional (f test) (f consequent) (f alternate)
  | .call callee arguments optional => .call (f callee) (arguments.map f) optional
  | .construct callee arguments => .construct (f callee) (arguments.map f)
  | .member owner key computed optional => .member (f owner) (f key) computed optional
  | .sequence expressions => .sequence (expressions.map f)
  | .defaultParam target value => .defaultParam (f target) (f value)
  | .restParam target => .restParam (f target)

theorem children_map (f : α → β) (s : Shape α) : (s.map f).children = s.children.map f := by
  cases s <;> simp [map,children,Option.toList_map,List.filterMap_map,List.map_filterMap]

theorem sizeOf_lt_of_mem_toList [SizeOf α] {a : α} {o : Option α} (h : a ∈ o.toList) :
    sizeOf a < sizeOf o := by
  cases o with
  | none => simp at h
  | some b =>
    simp only [Option.toList_some,List.mem_singleton] at h
    subst h
    simp

theorem sizeOf_lt_of_mem_holes [SizeOf α] {a : α} {l : List (Option α)} (h : a ∈ l.filterMap id) :
    sizeOf a < sizeOf l := by
  obtain ⟨o,ho,rfl⟩ := List.mem_filterMap.1 h
  have := List.sizeOf_lt_of_mem ho
  simp at this ⊢
  omega

theorem sizeOf_lt_of_mem_children [SizeOf α] {a : α} {s : Shape α} (h : a ∈ s.children) :
    sizeOf a < sizeOf s := by
  have hl {l : List α} (h : a ∈ l) : sizeOf a < sizeOf l := List.sizeOf_lt_of_mem h
  have ho {o : Option α} (h : a ∈ o.toList) : sizeOf a < sizeOf o := sizeOf_lt_of_mem_toList h
  have hh {l : List (Option α)} (h : a ∈ l.filterMap id) : sizeOf a < sizeOf l :=
    sizeOf_lt_of_mem_holes h
  cases s <;> simp only [children] at h <;> simp <;> grind

/-- The name of an identifier. -/
def name? : Shape α → Option String
  | .identifier name => some name
  | _ => none

end Shape
end ScriptLint
