import ScriptLint.Grammar.Expression

/-! Statements, each production over those it may call further on. -/
namespace ScriptLint.Grammar
variable (g : Productions)

/-- An expression in parentheses. -/
def parenthesized : Parser Tree := do
  expectPunct .openParen
  let inner ← g.expression false
  expectPunct .closeParen
  return inner

def declarator (inHead : Bool) : Parser Tree := do
  let start ← start
  let id ← bindingName
  if ← eatPunct .assign then
    let value ← g.assignment inHead
    finish start (.declarator id (some value))
  else
    finish start (.declarator id none)

def declarators (inHead : Bool) : Parser (List Tree) := do
  let first ← declarator g inHead
  if ← eatPunct .comma then
    let others ← g.declarators inHead
    return first :: others
  else
    return [first]

/-- The kind of variables that the current word declares. The word `let` does so only before a name
or a pattern. -/
def Cursor.declares? (c : Cursor) : Option VariableKind :=
  match c.current.kind with
  | .reserved .kwVar => some .var
  | .reserved .kwConst => some .const
  | .name "let" =>
    match c.next.kind with
    | .name _ => some .let_
    | .reserved w => if w = .kwIn ∨ w = .kwInstanceof then none else some .let_
    | .punct .openBracket | .punct .openBrace => some .let_
    | _ => none
  | _ => none

/-- A declaration without its end. -/
def declarationHead (kind : VariableKind) (inHead : Bool) : Parser (Nat × Shape Tree) := do
  let start ← start
  advance
  let declarators ← g.declarators inHead
  return (start,.variableDeclaration kind declarators)

def variableStatement (kind : VariableKind) : Parser Tree := do
  let (start,shape) ← declarationHead g kind false
  endStatement
  finish start shape

def expressionStatement : Parser Tree := do
  let start ← start
  let expression ← expression g false
  endStatement
  finish start (.expressionStatement expression)

def ifStatement : Parser Tree := do
  let start ← start
  advance
  let test ← parenthesized g
  let consequent ← g.statement
  let alternate ← if ← eatWord .kwElse then some <$> g.statement else pure none
  finish start (.ifStatement test consequent alternate)

def whileLoop : Parser Tree := do
  let start ← start
  advance
  let test ← parenthesized g
  let body ← g.statement
  finish start (.whileLoop test body)

def doWhile : Parser Tree := do
  let start ← start
  advance
  let body ← g.statement
  expectWord .kwWhile
  let test ← parenthesized g
  let _ ← eatPunct .semicolon
  finish start (.doWhile body test)

def withStatement : Parser Tree := do
  let start ← start
  advance
  let subject ← parenthesized g
  let body ← g.statement
  finish start (.withStatement subject body)

def returnStatement : Parser Tree := do
  let start ← start
  if (← read).inFunction then
    advance
    let t ← current
    let bare := t.kind == .punct .semicolon || t.kind == .punct .closeBrace ||
      t.kind == .endOfInput || t.newlineBefore
    let argument ← if bare then pure none else some <$> g.expression false
    endStatement
    finish start (.returnStatement argument)
  else
    fail .returnOutsideFunction

/-- A jump, with the label it names on its own line. -/
def jump (shape : Option Tree → Shape Tree) : Parser Tree := do
  let start ← start
  advance
  let t ← current
  let label ← match t.kind with
    | .name _ => if t.newlineBefore then pure none else some <$> bindingName
    | _ => pure none
  endStatement
  finish start (shape label)

def throwStatement : Parser Tree := do
  let start ← start
  advance
  if (← current).newlineBefore then fail .throwLineBreak
  else
    let argument ← g.expression false
    endStatement
    finish start (.throwStatement argument)

/-- What a loop over the members of a value may bind. -/
def isLoopTarget (t : Tree) : Bool :=
  match t.shape with
  | .variableDeclaration _ [_] | .identifier _ | .member .. => true
  | _ => false

/-- The first part of the head of a `for` loop. -/
def forHead : Parser (Option Tree) := do
  if ← atPunct .semicolon then return none
  else match (← get).declares? with
    | some kind =>
      let (start,shape) ← declarationHead g kind true
      let head ← finish start shape
      return some head
    | none =>
      let head ← g.expression true
      return some head

/-- The end of a `for` loop over the members of a value. -/
def forMembers (start : Nat) (left : Tree) (shape : Tree → Tree → Tree → Shape Tree)
    (right : Parser Tree) : Parser Tree := do
  if isLoopTarget left then
    advance
    let right ← right
    expectPunct .closeParen
    let body ← g.statement
    finish start (shape left right body)
  else
    failAt left.span.start .loopTarget

/-- The end of a `for` loop with a test and a step. -/
def forSteps (start : Nat) (head : Option Tree) : Parser Tree := do
  expectPunct .semicolon
  let test ← if ← atPunct .semicolon then pure none else some <$> g.expression false
  expectPunct .semicolon
  let step ← if ← atPunct .closeParen then pure none else some <$> g.expression false
  expectPunct .closeParen
  let body ← g.statement
  finish start (.forLoop head test step body)

def forLoop : Parser Tree := do
  let start ← start
  advance
  expectPunct .openParen
  let head ← forHead g
  match head, (← current).kind with
  | some left, .name "of" => forMembers g start left .forOf (g.assignment false)
  | some left, .reserved .kwIn => forMembers g start left .forIn (g.expression false)
  | _, _ => forSteps g start head

/-- The parameter of a handler in its parentheses. -/
def catchParameter : Parser (Option Tree) := do
  if ← eatPunct .openParen then
    let param ← bindingName
    expectPunct .closeParen
    return some param
  else
    return none

def catchClause : Parser (Option Tree) := do
  let start ← start
  if ← eatWord .kwCatch then
    let param ← catchParameter
    let body ← block g
    some <$> finish start (.catchClause param body)
  else
    return none

def tryStatement : Parser Tree := do
  let start ← start
  advance
  let body ← block g
  let handler ← catchClause g
  let finalizer ← if ← eatWord .kwFinally then some <$> block g else pure none
  if handler.isNone && finalizer.isNone then fail .tryAlone
  else finish start (.tryStatement body handler finalizer)

/-- The statements of a case that began at `start`, and the cases after it. -/
def caseBody (start : Nat) (test : Option Tree) (hasDefault : Bool) : Parser (List Tree) := do
  expectPunct .colon
  let consequent ← g.caseItems
  let first ← finish start (.switchCase test consequent)
  let others ← g.cases hasDefault
  return first :: others

def cases (hasDefault : Bool) : Parser (List Tree) := do
  let start ← start
  match (← current).kind with
  | .punct .closeBrace =>
    advance
    return []
  | .reserved .kwCase =>
    advance
    let test ← g.expression false
    caseBody g start (some test) hasDefault
  | .reserved .kwDefault =>
    if hasDefault then fail .repeatedDefault
    else
      advance
      caseBody g start none true
  | _ => unexpected

def switchStatement : Parser Tree := do
  let start ← start
  advance
  let discriminant ← parenthesized g
  expectPunct .openBrace
  let cases ← g.cases false
  finish start (.switchStatement discriminant cases)

def labeled : Parser Tree := do
  let start ← start
  let label ← bindingName
  advance
  let body ← g.statement
  finish start (.labeled label body)

/-- A statement that begins with a reserved word. -/
def wordStatement (w : Keyword) : Parser Tree := do
  match w with
  | .kwVar => variableStatement g .var
  | .kwConst => variableStatement g .const
  | .kwFunction => function g .declaration
  | .kwIf => ifStatement g
  | .kwFor => forLoop g
  | .kwWhile => whileLoop g
  | .kwDo => doWhile g
  | .kwReturn => returnStatement g
  | .kwBreak => jump .breakStatement
  | .kwContinue => jump .continueStatement
  | .kwThrow => throwStatement g
  | .kwTry => tryStatement g
  | .kwSwitch => switchStatement g
  | .kwWith => withStatement g
  | .kwDebugger =>
    let start ← start
    advance
    endStatement
    finish start .debugger
  | .kwClass | .kwImport | .kwExport => fail (.unsupportedDeclaration w)
  | _ => expressionStatement g

def statement : Parser Tree := nested do
  let c ← get
  match c.current.kind with
  | .punct .openBrace => block g
  | .punct .semicolon =>
    let start ← start
    advance
    finish start .empty
  | .reserved w => wordStatement g w
  | .name _ =>
    match c.declares? with
    | some kind => variableStatement g kind
    | none => if c.next.kind == .punct .colon then labeled g else expressionStatement g
  | _ => expressionStatement g

def blockItems : Parser (List Tree) := do
  match (← current).kind with
  | .punct .closeBrace => return []
  | .endOfInput => fail .unterminatedBlock
  | _ =>
    let first ← statement g
    let others ← g.blockItems
    return first :: others

def caseItems : Parser (List Tree) := do
  match (← current).kind with
  | .punct .closeBrace | .reserved .kwCase | .reserved .kwDefault => return []
  | .endOfInput => fail .unterminatedSwitch
  | _ =>
    let first ← statement g
    let others ← g.caseItems
    return first :: others

def programItems : Parser (List Tree) := do
  match (← current).kind with
  | .endOfInput => return []
  | _ =>
    let first ← statement g
    let others ← g.programItems
    return first :: others

end ScriptLint.Grammar
