/-! The lexemes of YAML documents, and places in their text. -/
namespace ScriptLint.Yaml

/-- What a document is written with. The lexemes that open and close block collections, and the one
that marks a key, stand for columns and colons that come later, and have no text of their own. -/
inductive Lexeme where
  | version (major minor : Nat)
  /-- Declares what a tag handle stands for. -/
  | tagHandle (handle stem : List Char)
  | documentStart
  | documentEnd
  | blockSequence
  | blockMapping
  | blockEnd
  | flowSequence
  | flowSequenceEnd
  | flowMapping
  | flowMappingEnd
  | blockEntry
  | flowEntry
  | key
  | value
  | alias (name : List Char)
  | anchor (name : List Char)
  | tag (handle suffix : List Char)
  | scalar (text : List Char) (plain : Bool)
  deriving Repr, DecidableEq

def isSpacing (c : Char) : Bool := c == ' ' || c == '\t'

/-- Characters that end a line. -/
def isBreak (c : Char) : Bool :=
  c == '\n' || c == '\r' || c == '\x85' || c == '\u2028' || c == '\u2029'

/-- What a line end is read as. -/
def breakText (c : Char) : Char := if c == '\u2028' || c == '\u2029' then c else '\n'

/-- Whether a word ends before what comes next: a blank, a line end or the end of the text. -/
def endsWord (next? : Option Char) : Bool :=
  match next? with
  | none => true
  | some c => isSpacing c || isBreak c

/-- The characters of names of anchors, directives and tag handles. -/
def isNamePart (c : Char) : Bool := c.isAlphanum || c == '_' || c == '-'

/-- Characters that a document may hold. -/
def isPrintable (c : Char) : Bool :=
  let n := c.toNat
  n == 0x09 || n == 0x0A || n == 0x0D || (0x20 ≤ n && n ≤ 0x7E) || n == 0x85 ||
    (0xA0 ≤ n && n ≤ 0xFFFD) || 0x10000 ≤ n

/-- A place in a text: what is left, and how far it is from the beginning and from the beginning of
its line. -/
structure Place where
  rest : List Char
  index : Nat
  line : Nat
  column : Nat

namespace Place

def start (text : List Char) : Place := ⟨text,0,0,0⟩

def peek? (p : Place) (n : Nat) : Option Char := p.rest[n]?

/-- Goes some characters to the right. -/
def skip (p : Place) (n : Nat) : Place := ⟨p.rest.drop n,p.index + n,p.line,p.column + n⟩

/-- Goes to the right over all characters with a property. -/
def skipWhile (p : Place) (f : Char → Bool) : Place := p.skip (p.rest.takeWhile f).length

/-- Goes over a line end, if there is one. -/
def nextLine (p : Place) : Place :=
  match p.rest with
  | [] => p
  | '\r' :: '\n' :: rest => ⟨rest,p.index + 2,p.line + 1,0⟩
  | _ :: rest => ⟨rest,p.index + 1,p.line + 1,0⟩

/-- Whether three characters that mark a document begin here. -/
def marks (p : Place) (c : Char) : Bool :=
  p.column == 0 && p.rest.take 3 == [c,c,c] && endsWord (p.peek? 3)

def marksDocument (p : Place) : Bool := p.marks '-' || p.marks '.'

def atBreak (p : Place) : Bool := (p.peek? 0).any isBreak

/-- Goes to the end of the line over blanks and a comment. There is nothing else allowed. -/
def endLine? (p : Place) : Option Place :=
  let p := p.skipWhile isSpacing
  let p := if p.peek? 0 == some '#' then p.skipWhile (!isBreak ·) else p
  if p.rest.isEmpty then some p else if p.atBreak then some p.nextLine else none

end Place
end ScriptLint.Yaml
