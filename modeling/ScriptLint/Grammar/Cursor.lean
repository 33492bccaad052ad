import ScriptLint.Fault
import ScriptLint.Tree.Basic

/-! Reading a list of tokens from left to right. A parser sees the token it stands at and those
ahead, moves on one token at a time and numbers the nodes it finishes. What surrounds a construct
(how deeply it is nested, whether it is in a function) is passed down to it and never handed back. -/
namespace ScriptLint.Grammar

/-- A place in a list of tokens. The last token of a list, which ends it, is never left. -/
structure Cursor where
  current : Token
  ahead : List Token
  /-- Where the last token before this place ends. -/
  consumedEnd : Nat
  /-- How many nodes are finished, which is the number of the next one. -/
  finished : NodeId

namespace Cursor

def advance (c : Cursor) : Cursor :=
  match c.ahead with
  | [] => c
  | t :: ts => { c with current := t, ahead := ts, consumedEnd := c.current.span.stop }

/-- The token after the current one. -/
def next (c : Cursor) : Token := c.ahead.headD c.current

end Cursor

/-- What a construct stands in. -/
structure Surroundings where
  nesting : Nat
  inFunction : Bool

/-- The deepest nesting of statements and expressions that is accepted. -/
def maxNesting : Nat := 128

/-- How a parser gives up: with a refusal, at the place it has got to. -/
structure Halt where
  error : SyntaxError
  place : Cursor

abbrev Parser (α : Type) := ReaderT Surroundings (StateT Cursor (Except Halt)) α

def current : Parser Token := return (← get).current

def next : Parser Token := return (← get).next

/-- Where a construct that begins at this place starts. -/
def start : Parser Nat := return (← get).current.span.start

def failAt {α : Type} (offset : Nat) (fault : Fault) : Parser α := do
  throw ⟨⟨fault,offset⟩,← get⟩

/-- Refuses the current token. -/
def fail {α : Type} (fault : Fault) : Parser α := do failAt (← start) fault

/-- Refuses the current token with a message that names it. -/
def failWith {α : Type} (fault : TokenKind → Fault) : Parser α := do fail (fault (← current).kind)

def unexpected {α : Type} : Parser α := failWith .unexpected

def advance : Parser Unit := modify Cursor.advance

def atKind (kind : TokenKind) : Parser Bool := return (← current).kind == kind

def atPunct (p : Punct) : Parser Bool := atKind (.punct p)

def atWord (w : Keyword) : Parser Bool := atKind (.reserved w)

/-- Passes over a token of the given kind, if it is the current one. -/
def eat (kind : TokenKind) : Parser Bool := do
  if ← atKind kind then
    advance
    return true
  else
    return false

def eatPunct (p : Punct) : Parser Bool := eat (.punct p)

def eatWord (w : Keyword) : Parser Bool := eat (.reserved w)

def expectPunct (p : Punct) : Parser Unit := do
  if ← eatPunct p then return ()
  else failWith (.expected p.text)

def expectWord (w : Keyword) : Parser Unit := do
  if ← eatWord w then return ()
  else failWith (.expected w.text)

/-- Finishes a node that began at `start` and ends with the last token consumed. -/
def finish (start : Nat) (shape : Shape Tree) : Parser Tree :=
  modifyGet fun c =>
    (.node c.finished ⟨start,max c.consumedEnd start⟩ shape,{ c with finished := c.finished + 1 })

/-- Reads a construct one level deeper. -/
def nested {α : Type} (p : Parser α) : Parser α := do
  let around ← read
  if around.nesting < maxNesting then
    withReader (fun around => { around with nesting := around.nesting + 1 }) p
  else
    fail .nestingTooDeep

/-- Reads a construct that stands in a function. -/
def insideFunction {α : Type} (p : Parser α) : Parser α :=
  withReader (fun around => { around with inFunction := true }) p

/-- A statement ends with a semicolon, which may be left out before a closing brace, at the end of
the input and at the end of a line. -/
def endStatement : Parser Unit := do
  if ← eatPunct .semicolon then return ()
  else
    let t ← current
    if t.kind == .punct .closeBrace || t.kind == .endOfInput || t.newlineBefore then return ()
    else unexpected

/-- The name of a variable, a parameter, a function or a label. -/
def bindingName : Parser Tree := do
  let start ← start
  match (← current).kind with
  | .name s =>
    advance
    finish start (.identifier s)
  | .punct .openBracket | .punct .openBrace => fail .destructuring
  | _ => failWith .expectedIdentifier

/-- The name of a property, for which reserved words serve as well. -/
def propertyName : Parser Tree := do
  let start ← start
  match (← current).kind with
  | .name s =>
    advance
    finish start (.identifier s)
  | .reserved w =>
    advance
    finish start (.identifier w.text)
  | _ => failWith .expectedPropertyName

end ScriptLint.Grammar
