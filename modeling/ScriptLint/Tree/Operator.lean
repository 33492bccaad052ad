import ScriptLint.Token.Punct

/-! Operators and the binding strength of the binary ones. -/
namespace ScriptLint

/-- How a variable is declared. -/
inductive VariableKind where
  | var | let_ | const
  deriving Repr, DecidableEq

/-- A block-scoped variable belongs to the nearest block, any other to the nearest function. -/
def VariableKind.isBlockScoped : VariableKind → Bool
  | .var => false
  | .let_ | .const => true

inductive FunctionKind where
  | declaration | expression | arrow
  deriving Repr, DecidableEq

inductive LiteralKind where
  | null | boolean | number | string | template
  deriving Repr, DecidableEq

inductive UnaryOperator where
  | minus | plus | not | bitNot | typeOf | void | delete
  deriving Repr, DecidableEq

inductive UpdateOperator where
  | increment | decrement
  deriving Repr, DecidableEq

inductive AssignmentOperator where
  | assign | add | sub | mul | div | rem | pow | shl | shr | ushr | bitAnd | bitOr | bitXor
  | and | or | nullish
  deriving Repr, DecidableEq

/-- Binary and logical operators. -/
inductive BinaryOperator where
  | nullish | or | and | bitOr | bitXor | bitAnd | eq | notEq | strictEq | strictNotEq
  | less | lessEq | greater | greaterEq | isIn | instanceOf | shl | shr | ushr
  | add | sub | mul | div | rem | pow
  deriving Repr, DecidableEq

def UnaryOperator.ofPunct? : Punct → Option UnaryOperator
  | .bang => some .not
  | .tilde => some .bitNot
  | .plus => some .plus
  | .minus => some .minus
  | _ => none

def UpdateOperator.ofPunct? : Punct → Option UpdateOperator
  | .increment => some .increment
  | .decrement => some .decrement
  | _ => none

def AssignmentOperator.ofPunct? : Punct → Option AssignmentOperator
  | .assign => some .assign
  | .addAssign => some .add
  | .subAssign => some .sub
  | .mulAssign => some .mul
  | .divAssign => some .div
  | .remAssign => some .rem
  | .powAssign => some .pow
  | .shlAssign => some .shl
  | .shrAssign => some .shr
  | .ushrAssign => some .ushr
  | .bitAndAssign => some .bitAnd
  | .bitOrAssign => some .bitOr
  | .bitXorAssign => some .bitXor
  | .andAssign => some .and
  | .orAssign => some .or
  | .nullishAssign => some .nullish
  | _ => none

/-- The assignment operator with a given spelling. -/
def AssignmentOperator.ofText? (s : String) : Option AssignmentOperator :=
  (Punct.ofText? s).bind ofPunct?

namespace BinaryOperator

def ofPunct? : Punct → Option BinaryOperator
  | .nullish => some .nullish
  | .or => some .or
  | .and => some .and
  | .bar => some .bitOr
  | .caret => some .bitXor
  | .ampersand => some .bitAnd
  | .eq => some .eq
  | .notEq => some .notEq
  | .strictEq => some .strictEq
  | .strictNotEq => some .strictNotEq
  | .less => some .less
  | .lessEq => some .lessEq
  | .greater => some .greater
  | .greaterEq => some .greaterEq
  | .shl => some .shl
  | .shr => some .shr
  | .ushr => some .ushr
  | .plus => some .add
  | .minus => some .sub
  | .star => some .mul
  | .slash => some .div
  | .percent => some .rem
  | .pow => some .pow
  | _ => none

/-- The binary operator with a given spelling; two of them are words. -/
def ofText? (s : String) : Option BinaryOperator :=
  if s == "in" then some .isIn
  else if s == "instanceof" then some .instanceOf
  else (Punct.ofText? s).bind ofPunct?

/-- Binding strength: an operator of a higher one takes its operands first. -/
def precedence : BinaryOperator → Nat
  | .nullish => 1
  | .or => 2
  | .and => 3
  | .bitOr => 4
  | .bitXor => 5
  | .bitAnd => 6
  | .eq | .notEq | .strictEq | .strictNotEq => 7
  | .less | .lessEq | .greater | .greaterEq | .isIn | .instanceOf => 8
  | .shl | .shr | .ushr => 9
  | .add | .sub => 10
  | .mul | .div | .rem => 11
  | .pow => 12

/-- The least precedence an operator may have on the right of this one. Only powers group to the
right. -/
def rightPrecedence (op : BinaryOperator) : Nat :=
  if op = .pow then op.precedence else op.precedence + 1

end BinaryOperator
end ScriptLint
