import ScriptLint.Text.Quoted
import ScriptLint.Tree.Basic

/-! Nodes in words: the name of a node's shape and its labelled fields, as messages show them. -/
namespace ScriptLint

def VariableKind.label : VariableKind → String
  | .var => "Var"
  | .let_ => "Let"
  | .const => "Const"

/-- The word that declares variables of this kind. -/
def VariableKind.keyword : VariableKind → String
  | .var => "var"
  | .let_ => "let"
  | .const => "const"

def FunctionKind.label : FunctionKind → String
  | .declaration => "Declaration"
  | .expression => "Expression"
  | .arrow => "Arrow"

def LiteralKind.label : LiteralKind → String
  | .null => "Null"
  | .boolean => "Boolean"
  | .number => "Number"
  | .string => "String"
  | .template => "Template"

def UnaryOperator.label : UnaryOperator → String
  | .minus => "Minus"
  | .plus => "Plus"
  | .not => "Not"
  | .bitNot => "BitNot"
  | .typeOf => "TypeOf"
  | .void => "Void"
  | .delete => "Delete"

def UpdateOperator.label : UpdateOperator → String
  | .increment => "Increment"
  | .decrement => "Decrement"

def AssignmentOperator.label : AssignmentOperator → String
  | .assign => "Assign"
  | .add => "Add"
  | .sub => "Sub"
  | .mul => "Mul"
  | .div => "Div"
  | .rem => "Rem"
  | .pow => "Exp"
  | .shl => "Shl"
  | .shr => "Shr"
  | .ushr => "UShr"
  | .bitAnd => "BitAnd"
  | .bitOr => "BitOr"
  | .bitXor => "BitXor"
  | .and => "And"
  | .or => "Or"
  | .nullish => "Nullish"

def BinaryOperator.label : BinaryOperator → String
  | .nullish => "Nullish"
  | .or => "Or"
  | .and => "And"
  | .bitOr => "BitOr"
  | .bitXor => "BitXor"
  | .bitAnd => "BitAnd"
  | .eq => "Eq"
  | .notEq => "NotEq"
  | .strictEq => "StrictEq"
  | .strictNotEq => "StrictNotEq"
  | .less => "Lt"
  | .lessEq => "LtEq"
  | .greater => "Gt"
  | .greaterEq => "GtEq"
  | .isIn => "In"
  | .instanceOf => "InstanceOf"
  | .shl => "Shl"
  | .shr => "Shr"
  | .ushr => "UShr"
  | .add => "Add"
  | .sub => "Sub"
  | .mul => "Mul"
  | .div => "Div"
  | .rem => "Rem"
  | .pow => "Exp"

/-- The content of one field of a node. -/
inductive Field (α : Type) where
  | node (a : α)
  | optional (a : Option α)
  | nodes (as : List α)
  | holes (as : List (Option α))
  | flag (b : Bool)
  | label (s : String)
  | text (s : String)

namespace Shape
variable {α : Type}

def label : Shape α → String
  | .program _ => "Program"
  | .function .. => "Function"
  | .block _ => "Block"
  | .variableDeclaration .. => "VariableDeclaration"
  | .declarator .. => "Declarator"
  | .expressionStatement _ => "ExpressionStatement"
  | .returnStatement _ => "Return"
  | .ifStatement .. => "If"
  | .switchStatement .. => "Switch"
  | .switchCase .. => "Case"
  | .forLoop .. => "For"
  | .forIn .. => "ForIn"
  | .forOf .. => "ForOf"
  | .whileLoop .. => "While"
  | .doWhile .. => "DoWhile"
  | .tryStatement .. => "Try"
  | .catchClause .. => "Catch"
  | .labeled .. => "Labeled"
  | .withStatement .. => "With"
  | .breakStatement _ => "Break"
  | .continueStatement _ => "Continue"
  | .throwStatement _ => "Throw"
  | .empty => "Empty"
  | .debugger => "Debugger"
  | .identifier _ => "Identifier"
  | .literal .. => "Literal"
  | .this => "This"
  | .array _ => "Array"
  | .object _ => "Object"
  | .property .. | .shorthand _ => "Property"
  | .spread _ => "Spread"
  | .assignment .. => "Assignment"
  | .binary .. => "Binary"
  | .unary .. => "Unary"
  | .update .. => "Update"
  | .conditional .. => "Conditional"
  | .call .. => "Call"
  | .construct .. => "New"
  | .member .. => "Member"
  | .sequence _ => "Sequence"
  | .defaultParam .. => "DefaultParam"
  | .restParam _ => "RestParam"

/-- The fields of a node with their labels. -/
def fields : Shape α → List (String × Field α)
  | .program body | .block body => [("body",.nodes body)]
  | .function kind name params body =>
    [("kind",.label kind.label),("name",.optional name),("params",.nodes params),
     ("body",.node body)]
  | .variableDeclaration kind declarators =>
    [("kind",.label kind.label),("declarators",.nodes declarators)]
  | .declarator id value => [("id",.node id),("init",.optional value)]
  | .expressionStatement expression => [("expression",.node expression)]
  | .returnStatement argument => [("argument",.optional argument)]
  | .ifStatement test consequent alternate =>
    [("test",.node test),("consequent",.node consequent),("alternate",.optional alternate)]
  | .switchStatement discriminant cases =>
    [("discriminant",.node discriminant),("cases",.nodes cases)]
  | .switchCase test consequent => [("test",.optional test),("consequent",.nodes consequent)]
  | .forLoop head test step body =>
    [("init",.optional head),("test",.optional test),("update",.optional step),
     ("body",.node body)]
  | .forIn left right body | .forOf left right body =>
    [("left",.node left),("right",.node right),("body",.node body)]
  | .whileLoop test body => [("test",.node test),("body",.node body)]
  | .doWhile body test => [("body",.node body),("test",.node test)]
  | .tryStatement body handler finalizer =>
    [("block",.node body),("handler",.optional handler),("finalizer",.optional finalizer)]
  | .catchClause param body => [("param",.optional param),("body",.node body)]
  | .labeled label body => [("label",.node label),("body",.node body)]
  | .withStatement subject body => [("object",.node subject),("body",.node body)]
  | .breakStatement label | .continueStatement label => [("label",.optional label)]
  | .throwStatement argument | .spread argument => [("argument",.node argument)]
  | .empty | .debugger | .this => []
  | .identifier name => [("name",.text name)]
  | .literal kind raw => [("kind",.label kind.label),("raw",.text raw)]
  | .array elements => [("elements",.holes elements)]
  | .object properties => [("properties",.nodes properties)]
  | .property key value computed =>
    [("key",.node key),("value",.node value),("computed",.flag computed),
     ("shorthand",.flag false)]
  | .shorthand name =>
    [("key",.node name),("value",.node name),("computed",.flag false),
     ("shorthand",.flag true)]
  | .assignment operator target value =>
    [("operator",.label operator.label),("target",.node target),("value",.node value)]
  | .binary operator left right =>
    [("operator",.label operator.label),("left",.node left),("right",.node right)]
  | .unary operator argument => [("operator",.label operator.label),("argument",.node argument)]
  | .update operator leading argument =>
    [("operator",.label operator.label),("prefix",.flag leading),("argument",.node argument)]
  | .conditional test consequent alternate =>
    [("test",.node test),("consequent",.node consequent),("alternate",.node alternate)]
  | .call callee arguments optional =>
    [("callee",.node callee),("arguments",.nodes arguments),("optional",.flag optional)]
  | .construct callee arguments => [("callee",.node callee),("arguments",.nodes arguments)]
  | .member owner key computed optional =>
    [("object",.node owner),("property",.node key),("computed",.flag computed),
     ("optional",.flag optional)]
  | .sequence expressions => [("expressions",.nodes expressions)]
  | .defaultParam target value => [("target",.node target),("default",.node value)]
  | .restParam target => [("target",.node target)]

end Shape

def describeId (id : NodeId) : String := "NodeId(" ++ toString id ++ ")"

def describeOption : Option NodeId → String
  | some id => "Some(" ++ describeId id ++ ")"
  | none => "None"

def describeList (items : List String) : String := "[" ++ String.intercalate ", " items ++ "]"

def describeFlag (b : Bool) : String := if b then "true" else "false"

/-- A named record with its fields on one line; without fields, its name alone. -/
def describeRecord (name : String) (fields : List (String × String)) : String :=
  if fields.isEmpty then name
  else name ++ " \x7b " ++ String.intercalate ", " (fields.map fun f => f.1 ++ ": " ++ f.2) ++ " \x7d"

def Field.describe : Field NodeId → String
  | .node id => describeId id
  | .optional id => describeOption id
  | .nodes ids => describeList (ids.map describeId)
  | .holes ids => describeList (ids.map describeOption)
  | .flag b => describeFlag b
  | .label s => s
  | .text s => Text.quote s

def Shape.describe (s : Shape NodeId) : String :=
  describeRecord s.label (s.fields.map fun f => (f.1,f.2.describe))

/-- A node in words. -/
def Tree.describe (t : Tree) : String := (t.shape.map Tree.id).describe

end ScriptLint
