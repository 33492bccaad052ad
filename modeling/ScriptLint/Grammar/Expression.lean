import ScriptLint.Grammar.Production

/-! Functions and expressions, each production over those it may call further on. -/
namespace ScriptLint.Grammar
variable (g : Productions)

/-- One parameter of a function, with its default or collecting the rest. -/
def parameter : Parser Tree := do
  let start ← start
  if ← eatPunct .ellipsis then
    let target ← bindingName
    finish start (.restParam target)
  else
    let target ← bindingName
    if ← eatPunct .assign then
      let value ← g.assignment false
      finish start (.defaultParam target value)
    else
      return target

def parameters : Parser (List Tree) := do
  if ← atPunct .closeParen then return []
  else
    let first ← parameter g
    if ← eatPunct .comma then
      let others ← g.parameters
      return first :: others
    else
      return [first]

/-- A list of parameters in its parentheses. -/
def parameterList : Parser (List Tree) := do
  expectPunct .openParen
  let params ← g.parameters
  expectPunct .closeParen
  return params

/-- Statements in braces. -/
def block : Parser Tree := do
  let start ← start
  expectPunct .openBrace
  let body ← g.blockItems
  advance
  finish start (.block body)

def functionBody : Parser Tree := insideFunction (block g)

/-- A function that begins with its keyword. Only a declaration has to have a name. -/
def function (kind : FunctionKind) : Parser Tree := do
  let start ← start
  expectWord .kwFunction
  let _ ← eatPunct .star
  let named ←
    if kind = .declaration then pure true
    else match (← current).kind with
      | .name _ | .reserved _ => pure true
      | _ => pure false
  let name ← if named then some <$> bindingName else pure none
  let params ← parameterList g
  let body ← functionBody g
  finish start (.function kind name params body)

/-- The token after the one that closes the first bracket of a list of tokens. Brackets of all
kinds are counted alike. -/
def afterClosing (depth : Nat) : List Token → Option Token
  | [] => none
  | t :: ts =>
    match t.kind with
    | .punct p =>
      if p.isOpening then afterClosing (depth + 1) ts
      else if p.isClosing then
        if depth ≤ 1 then some (ts.headD t) else afterClosing (depth - 1) ts
      else afterClosing depth ts
    | .endOfInput => none
    | _ => afterClosing depth ts

/-- Whether an arrow stands where an arrow function has it: after its one name, or after its
parenthesised parameters, on the same line. -/
def Cursor.startsArrow (c : Cursor) : Bool :=
  let arrow (t : Token) := t.kind == .punct .arrow && !t.newlineBefore
  match c.current.kind with
  | .name _ => arrow c.next
  | .punct .openParen => (afterClosing 0 (c.current :: c.ahead)).any arrow
  | _ => false

def arrowFunction : Parser Tree := do
  let start ← start
  let params ←
    if ← atPunct .openParen then parameterList g
    else
      let param ← bindingName
      pure [param]
  expectPunct .arrow
  let body ← if ← atPunct .openBrace then functionBody g else g.assignment false
  finish start (.function .arrow none params body)

/-- The arguments of a call in their parentheses. -/
def argumentList : Parser (List Tree) := do
  expectPunct .openParen
  let items ← g.arguments
  expectPunct .closeParen
  return items

/-- A literal of one token. -/
def literal (kind : LiteralKind) (raw : String) : Parser Tree := do
  let start ← start
  advance
  finish start (.literal kind raw)

def array : Parser Tree := do
  let start ← start
  expectPunct .openBracket
  let elements ← g.elements
  advance
  finish start (.array elements)

def object : Parser Tree := do
  let start ← start
  expectPunct .openBrace
  let properties ← g.properties
  advance
  finish start (.object properties)

/-- The key of a property, and whether it is computed. -/
def propertyKey : Parser (Tree × Bool) := do
  match (← current).kind with
  | .punct .openBracket =>
    advance
    let key ← g.assignment false
    expectPunct .closeBracket
    return (key,true)
  | .name _ | .reserved _ =>
    let key ← propertyName
    return (key,false)
  | .string raw =>
    let key ← literal .string raw
    return (key,false)
  | .number raw =>
    let key ← literal .number raw
    return (key,false)
  | _ => unexpected

/-- Whether the current word introduces an accessor. Before a colon, a parenthesis, a comma or a
closing brace it is an ordinary key. -/
def Cursor.startsAccessor (c : Cursor) : Bool :=
  (c.current.kind == .name "get" || c.current.kind == .name "set") &&
    match c.next.kind with
    | .punct .colon | .punct .openParen | .punct .comma | .punct .closeBrace => false
    | _ => true

/-- What follows the key of a property that began at `start`. -/
def propertyValue (start : Nat) (accessor : Bool) (key : Tree) (computed : Bool) : Parser Tree := do
  let t ← current
  if !accessor && t.kind == .punct .colon then
    advance
    let value ← g.assignment false
    finish start (.property key value computed)
  else if t.kind == .punct .openParen then
    let params ← parameterList g
    let body ← functionBody g
    let value ← finish start (.function .expression none params body)
    finish start (.property key value computed)
  else
    let plain := match key.shape with
      | .identifier name => !computed && (Keyword.ofText? name).isNone
      | _ => false
    if !accessor && plain && (t.kind == .punct .comma || t.kind == .punct .closeBrace) then
      finish start (.shorthand key)
    else
      unexpected

def property : Parser Tree := do
  let start ← start
  if ← eatPunct .ellipsis then
    let argument ← g.assignment false
    finish start (.spread argument)
  else
    let accessor := (← get).startsAccessor
    if accessor then advance
    let (key,computed) ← propertyKey g
    propertyValue g start accessor key computed

def properties : Parser (List Tree) := do
  if ← atPunct .closeBrace then return []
  else
    let first ← property g
    if ← atPunct .closeBrace then return [first]
    else
      expectPunct .comma
      let others ← g.properties
      return first :: others

/-- An expression without operators, accesses and calls. -/
def primary : Parser Tree := do
  let start ← start
  match (← current).kind with
  | .name s =>
    advance
    finish start (.identifier s)
  | .reserved w =>
    match w with
    | .kwFunction => function g .expression
    | .kwThis =>
      advance
      finish start .this
    | .kwTrue | .kwFalse => literal .boolean w.text
    | .kwNull => literal .null w.text
    | .kwClass | .kwSuper | .kwImport => fail (.unsupportedExpression w)
    | _ => unexpected
  | .number raw => literal .number raw
  | .string raw => literal .string raw
  | .template raw => literal .template raw
  | .punct .openParen =>
    advance
    let inner ← g.expression false
    expectPunct .closeParen
    return inner
  | .punct .openBracket => array g
  | .punct .openBrace => object g
  | .punct .slash => fail .regularExpression
  | _ => unexpected

/-- An access by a computed key, after its opening bracket. -/
def computedKey : Parser Tree := do
  let key ← g.expression false
  expectPunct .closeBracket
  return key

def constructTail (start : Nat) (callee : Tree) : Parser Tree := do
  if ← eatPunct .dot then
    let key ← propertyName
    let access ← finish start (.member callee key false false)
    g.constructTail start access
  else if ← eatPunct .openBracket then
    let key ← computedKey g
    let access ← finish start (.member callee key true false)
    g.constructTail start access
  else
    return callee

def construct : Parser Tree := do
  let start ← start
  expectWord .kwNew
  if ← atPunct .dot then fail .newTarget
  else
    let callee ← if ← atWord .kwNew then g.construct else primary g
    let callee ← constructTail g start callee
    let arguments ← if ← atPunct .openParen then argumentList g else pure []
    finish start (.construct callee arguments)

def accessTail (start : Nat) (owner : Tree) : Parser Tree := do
  match (← current).kind with
  | .punct .dot =>
    advance
    let key ← propertyName
    let access ← finish start (.member owner key false false)
    g.accessTail start access
  | .punct .optionalDot =>
    advance
    if ← atPunct .openParen then
      let arguments ← argumentList g
      let call ← finish start (.call owner arguments true)
      g.accessTail start call
    else if ← eatPunct .openBracket then
      let key ← computedKey g
      let access ← finish start (.member owner key true true)
      g.accessTail start access
    else
      let key ← propertyName
      let access ← finish start (.member owner key false true)
      g.accessTail start access
  | .punct .openBracket =>
    advance
    let key ← computedKey g
    let access ← finish start (.member owner key true false)
    g.accessTail start access
  | .punct .openParen =>
    let arguments ← argumentList g
    let call ← finish start (.call owner arguments false)
    g.accessTail start call
  | _ => return owner

/-- An expression with the accesses and calls that follow it. -/
def access : Parser Tree := do
  let start ← start
  let owner ← if ← atWord .kwNew then construct g else primary g
  accessTail g start owner

/-- The unary operator a token stands for. -/
def unaryOperator? : TokenKind → Option UnaryOperator
  | .punct p => UnaryOperator.ofPunct? p
  | .reserved .kwTypeof => some .typeOf
  | .reserved .kwVoid => some .void
  | .reserved .kwDelete => some .delete
  | _ => none

/-- The update operator a token stands for. -/
def updateOperator? : TokenKind → Option UpdateOperator
  | .punct p => UpdateOperator.ofPunct? p
  | _ => none

/-- An expression with the unary and update operators around it. -/
def unary : Parser Tree := nested do
  let start ← start
  let t ← current
  match unaryOperator? t.kind, updateOperator? t.kind with
  | some operator, _ =>
    advance
    let argument ← g.unary
    finish start (.unary operator argument)
  | none, some operator =>
    advance
    let argument ← g.unary
    finish start (.update operator true argument)
  | none, none =>
    let argument ← access g
    let t ← current
    match updateOperator? t.kind with
    | some operator =>
      if t.newlineBefore then return argument
      else
        advance
        finish start (.update operator false argument)
    | none => return argument

/-- The binary operator a token stands for. -/
def binaryOperator? (inHead : Bool) : TokenKind → Option BinaryOperator
  | .punct p => BinaryOperator.ofPunct? p
  | .reserved .kwInstanceof => some .instanceOf
  | .reserved .kwIn => if inHead then none else some .isIn
  | _ => none

def binaryTail (start least : Nat) (inHead : Bool) (left : Tree) : Parser Tree := do
  match binaryOperator? inHead (← current).kind with
  | some operator =>
    if operator.precedence < least then return left
    else
      advance
      let right ← g.binary operator.rightPrecedence inHead
      let both ← finish start (.binary operator left right)
      g.binaryTail start least inHead both
  | none => return left

def binary (least : Nat) (inHead : Bool) : Parser Tree := do
  let start ← start
  let left ← unary g
  binaryTail g start least inHead left

def conditional (inHead : Bool) : Parser Tree := do
  let start ← start
  let test ← binary g 1 inHead
  if ← eatPunct .question then
    let consequent ← g.assignment false
    expectPunct .colon
    let alternate ← g.assignment inHead
    finish start (.conditional test consequent alternate)
  else
    return test

/-- What may be assigned to. -/
def isTarget (t : Tree) : Bool :=
  match t.shape with
  | .identifier _ | .member .. => true
  | _ => false

/-- The assignment operator a token stands for. -/
def assignmentOperator? : TokenKind → Option AssignmentOperator
  | .punct p => AssignmentOperator.ofPunct? p
  | _ => none

def assignment (inHead : Bool) : Parser Tree := nested do
  if (← get).startsArrow then arrowFunction g
  else
    let start ← start
    let target ← conditional g inHead
    match assignmentOperator? (← current).kind with
    | some operator =>
      if isTarget target then
        advance
        let value ← g.assignment inHead
        finish start (.assignment operator target value)
      else
        failAt target.span.start .assignmentTarget
    | none => return target

def sequenceTail (inHead : Bool) : Parser (List Tree) := do
  if ← eatPunct .comma then
    let first ← g.assignment inHead
    let others ← g.sequenceTail inHead
    return first :: others
  else
    return []

def expression (inHead : Bool) : Parser Tree := do
  let start ← start
  let first ← assignment g inHead
  if ← atPunct .comma then
    let others ← sequenceTail g inHead
    finish start (.sequence (first :: others))
  else
    return first

/-- An item of a call or an array. -/
def spreadOrAssignment : Parser Tree := do
  let start ← start
  if ← eatPunct .ellipsis then
    let argument ← g.assignment false
    finish start (.spread argument)
  else
    assignment g false

def arguments : Parser (List Tree) := do
  if ← atPunct .closeParen then return []
  else
    let first ← spreadOrAssignment g
    if ← eatPunct .comma then
      let others ← g.arguments
      return first :: others
    else
      return [first]

def elements : Parser (List (Option Tree)) := do
  if ← atPunct .closeBracket then return []
  else if ← eatPunct .comma then
    let others ← g.elements
    return none :: others
  else
    let first ← spreadOrAssignment g
    if ← atPunct .closeBracket then return [some first]
    else
      expectPunct .comma
      let others ← g.elements
      return some first :: others

end ScriptLint.Grammar
