import ScriptLint.Grammar.Cursor

/-! The productions of the grammar that refer to each other. Each of them is defined over a record
of all of them and calls the record only after it has consumed a token, so that every call reads
fewer tokens than its caller was given. -/
namespace ScriptLint.Grammar

/-- Parsers for the recursive productions. The flag of an expression says that it is the head of a
loop, where the operator `in` ends it. -/
structure Productions where
  /-- Expressions separated by commas. -/
  expression : (inHead : Bool) → Parser Tree
  /-- The further expressions of a sequence, each with the comma before it. -/
  sequenceTail : (inHead : Bool) → Parser (List Tree)
  assignment : (inHead : Bool) → Parser Tree
  /-- An expression of operators of at least the given precedence. -/
  binary : (least : Nat) → (inHead : Bool) → Parser Tree
  /-- The operators and right operands after a left operand. -/
  binaryTail : (start least : Nat) → (inHead : Bool) → (left : Tree) → Parser Tree
  unary : Parser Tree
  /-- The accesses and calls after an expression. -/
  accessTail : (start : Nat) → (owner : Tree) → Parser Tree
  construct : Parser Tree
  /-- The accesses after the callee of a `new`. -/
  constructTail : (start : Nat) → (callee : Tree) → Parser Tree
  /-- What stands between the parentheses of a call. -/
  arguments : Parser (List Tree)
  /-- What stands between the brackets of an array. -/
  elements : Parser (List (Option Tree))
  /-- What stands between the braces of an object. -/
  properties : Parser (List Tree)
  /-- What stands between the parentheses of a function. -/
  parameters : Parser (List Tree)
  declarators : (inHead : Bool) → Parser (List Tree)
  statement : Parser Tree
  /-- The statements up to a closing brace. -/
  blockItems : Parser (List Tree)
  /-- The statements up to the next case. -/
  caseItems : Parser (List Tree)
  /-- The cases up to the end of a switch, knowing whether one of them was the default. -/
  cases : (hasDefault : Bool) → Parser (List Tree)
  /-- The statements up to the end of the input. -/
  programItems : Parser (List Tree)

/-- Productions that refuse every token. -/
def Productions.none : Productions where
  expression _ := unexpected
  sequenceTail _ := unexpected
  assignment _ := unexpected
  binary _ _ := unexpected
  binaryTail _ _ _ _ := unexpected
  unary := unexpected
  accessTail _ _ := unexpected
  construct := unexpected
  constructTail _ _ := unexpected
  arguments := unexpected
  elements := unexpected
  properties := unexpected
  parameters := unexpected
  declarators _ := unexpected
  statement := unexpected
  blockItems := unexpected
  caseItems := unexpected
  cases _ := unexpected
  programItems := unexpected

end ScriptLint.Grammar
