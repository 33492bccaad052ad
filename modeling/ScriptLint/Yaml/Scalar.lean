import ScriptLint.Yaml.Lexeme

/-! The text of scalars: plain, quoted and in blocks. -/
namespace ScriptLint.Yaml

/-- The blanks and line ends between two words of a scalar, each list with the last one first. -/
structure Gap where
  blanks : List Char
  /-- Whether a line ends in it. -/
  broken : Bool
  firstBreak : List Char
  moreBreaks : List Char

namespace Gap

def empty : Gap := ⟨[],false,[],[]⟩

/-- A gap that begins with an escaped line end, which is not part of the text. -/
def escaped : Gap := ⟨[],true,[],[]⟩

/-- Blanks count only on the first line. -/
def addBlank (g : Gap) (c : Char) : Gap := if g.broken then g else { g with blanks := c :: g.blanks }

def addBreak (g : Gap) (c : Char) : Gap :=
  if g.broken then { g with moreBreaks := c :: g.moreBreaks }
  else ⟨[],true,[c],[]⟩

/-- What a gap contributes to the text: one line end is a blank, and of several the first is left
out. -/
def text (g : Gap) : List Char :=
  if !g.broken then g.blanks.reverse
  else if g.firstBreak == ['\n'] then
    if g.moreBreaks.isEmpty then [' '] else g.moreBreaks.reverse
  else g.firstBreak ++ g.moreBreaks.reverse

/-- Reads the gap before `cs`. A tab may not stand before column `floor` of a later line. -/
def scan? (floor : Nat) (g : Gap) (index line column : Nat) : List Char → Option (Gap × Place)
  | '\r' :: '\n' :: cs => scan? floor (g.addBreak '\n') (index + 2) (line + 1) 0 cs
  | c :: cs =>
    if isBreak c then scan? floor (g.addBreak (breakText c)) (index + 1) (line + 1) 0 cs
    else if isSpacing c then
      if g.broken && c == '\t' && column < floor then none
      else scan? floor (g.addBlank c) (index + 1) line (column + 1) cs
    else some (g,⟨c :: cs,index,line,column⟩)
  | [] => some (g,⟨[],index,line,column⟩)

def read? (floor : Nat) (g : Gap) (p : Place) : Option (Gap × Place) :=
  scan? floor g p.index p.line p.column p.rest

end Gap

/-- Characters that end a plain scalar inside of brackets. -/
def isFlowMark (c : Char) : Bool := c == ',' || c == '[' || c == ']' || c == '{' || c == '}'

/-- The number of characters of a plain scalar up to the next blank. Inside of brackets a colon may
not stand before a bracket, a comma or a question mark. -/
def plainLength? (flow : Bool) : List Char → Option Nat
  | [] => some 0
  | c :: cs =>
    if isSpacing c || isBreak c then some 0
    else if c == ':' then
      if flow && cs.head?.any (fun d => isFlowMark d || d == '?') then none
      else if endsWord cs.head? then some 0
      else (plainLength? flow cs).map (· + 1)
    else if flow && isFlowMark c then some 0
    else (plainLength? flow cs).map (· + 1)

/-- A scalar that was read: its text, whether a line ended after it, and the place behind. -/
structure ScalarRead where
  text : List Char
  broken : Bool
  place : Place

/-- Goes on with a plain scalar after a gap. Outside of brackets it ends with a line that does not
reach column `floor`. -/
def plainFrom? (flow : Bool) (floor : Nat) : Nat → List Char → Gap → Place → Option ScalarRead
  | 0, _, _, _ => none
  | fuel + 1, text, gap, p =>
    if p.marksDocument || p.peek? 0 == some '#' then some ⟨text,gap.broken,p⟩
    else
      match plainLength? flow p.rest with
      | none => none
      | some n =>
        let joined := if n == 0 then text else text ++ gap.text ++ p.rest.take n
        let gap := if n == 0 then gap else .empty
        let p := p.skip n
        if p.rest.isEmpty || !endsWord (p.peek? 0) then some ⟨joined,gap.broken,p⟩
        else
          match Gap.empty.read? floor p with
          | none => none
          | some (gap,p) =>
            if !flow && p.column < floor then some ⟨joined,gap.broken,p⟩
            else plainFrom? flow floor fuel joined gap p

def plain? (flow : Bool) (floor : Nat) (p : Place) : Option ScalarRead :=
  plainFrom? flow floor (p.rest.length + 1) [] .empty p

/-- The value of a hexadecimal number. -/
def hexValue? (digits : List Char) : Option Nat :=
  digits.foldlM (fun n c => do
    let d ← if c.isDigit then some (c.toNat - '0'.toNat)
      else if 'a' ≤ c && c ≤ 'f' then some (c.toNat - 'a'.toNat + 10)
      else if 'A' ≤ c && c ≤ 'F' then some (c.toNat - 'A'.toNat + 10)
      else none
    some (16 * n + d)) 0

/-- The character with a number written in a given count of digits. -/
def hexChar? (count : Nat) (cs : List Char) : Option Char :=
  let digits := cs.take count
  if digits.length == count then
    (hexValue? digits).bind fun n => if h : n.isValidChar then some (Char.ofNatAux n h) else none
  else none

/-- The character that an escape after a backslash stands for, and the length of the escape. -/
def escape? : List Char → Option (Char × Nat)
  | [] => none
  | c :: cs =>
    match c with
    | '0' => some ('\x00',1)
    | 'a' => some ('\x07',1)
    | 'b' => some ('\x08',1)
    | 't' => some ('\t',1)
    | '\t' => some ('\t',1)
    | 'n' => some ('\n',1)
    | 'v' => some ('\x0b',1)
    | 'f' => some ('\x0c',1)
    | 'r' => some ('\r',1)
    | 'e' => some ('\x1b',1)
    | ' ' => some (' ',1)
    | '"' => some ('"',1)
    | '/' => some ('/',1)
    | '\\' => some ('\\',1)
    | 'N' => some ('\x85',1)
    | '_' => some ('\xa0',1)
    | 'L' => some ('\u2028',1)
    | 'P' => some ('\u2029',1)
    | 'x' => (hexChar? 2 cs).map (·,3)
    | 'u' => (hexChar? 4 cs).map (·,5)
    | 'U' => (hexChar? 8 cs).map (·,9)
    | _ => none

/-- Goes on with a quoted scalar whose text so far, the last character first, is given. -/
def quotedFrom? (quote : Char) : Nat → List Char → Place → Option ScalarRead
  | 0, _, _ => none
  | fuel + 1, text, p =>
    match p.rest with
    | [] => none
    | c :: cs =>
      if p.marksDocument then none
      else if c == quote then
        if quote == '\'' && cs.head? == some '\'' then quotedFrom? quote fuel (c :: text) (p.skip 2)
        else some ⟨text.reverse,false,p.skip 1⟩
      else if isSpacing c || isBreak c then
        match Gap.empty.read? 0 p with
        | none => none
        | some (gap,p) => quotedFrom? quote fuel (gap.text.reverse ++ text) p
      else if quote == '"' && c == '\\' then
        if cs.head?.any isBreak then
          match Gap.escaped.read? 0 (p.skip 1).nextLine with
          | none => none
          | some (gap,p) => quotedFrom? quote fuel (gap.text.reverse ++ text) p
        else
          match escape? cs with
          | none => none
          | some (d,n) => quotedFrom? quote fuel (d :: text) (p.skip (n + 1))
      else quotedFrom? quote fuel (c :: text) (p.skip 1)

/-- Reads a quoted scalar from its opening quote on. -/
def quoted? (quote : Char) (p : Place) : Option ScalarRead :=
  quotedFrom? quote (p.rest.length + 1) [] (p.skip 1)

/-- What becomes of the line ends at the end of a block. -/
inductive Chomping where
  | strip | clip | keep
  deriving Repr, DecidableEq

/-- Reads the signs after the mark of a block: what to do with line ends, and the indentation, which
is zero if it is not given. -/
def blockHeader? (p : Place) : Option (Chomping × Nat × Place) :=
  let chomping? (p : Place) : Option Chomping :=
    match p.peek? 0 with
    | some '+' => some .keep
    | some '-' => some .strip
    | _ => none
  let digit? (p : Place) : Option Nat :=
    (p.peek? 0).bind fun c => if c.isDigit then some (c.toNat - '0'.toNat) else none
  let found : Chomping × Option Nat × Place :=
    match chomping? p with
    | some m =>
      match digit? (p.skip 1) with
      | some d => (m,some d,p.skip 2)
      | none => (m,none,p.skip 1)
    | none =>
      match digit? p with
      | some d =>
        match chomping? (p.skip 1) with
        | some m => (m,some d,p.skip 2)
        | none => (.clip,some d,p.skip 1)
      | none => (.clip,none,p)
  if found.2.1 == some 0 then none
  else found.2.2.endLine?.map fun q => (found.1,found.2.1.getD 0,q)

/-- Reads empty lines and the indentation of the line after them. The indentation is `indent`, or
unknown if that is zero. The result has the widest column reached and the line ends, the last one
first. -/
def blockGap? (indent widest : Nat) (breaks : List Char) (index line column : Nat) :
    List Char → Option (Nat × List Char × Place)
  | '\r' :: '\n' :: cs => blockGap? indent (max widest column) ('\n' :: breaks) (index + 2) (line + 1) 0 cs
  | c :: cs =>
    let inside := indent == 0 || column < indent
    if c == ' ' && inside then blockGap? indent widest breaks (index + 1) line (column + 1) cs
    else if c == '\t' && inside then none
    else if isBreak c then
      blockGap? indent (max widest column) (breakText c :: breaks) (index + 1) (line + 1) 0 cs
    else some (max widest column,breaks,⟨c :: cs,index,line,column⟩)
  | [] => some (max widest column,breaks,⟨[],index,line,column⟩)

/-- The lines of a block as they are put together. -/
structure BlockDraft where
  text : List Char
  /-- The end of the last line. -/
  lineEnd : List Char
  /-- Whether the last line began with a blank. -/
  spaced : Bool
  /-- The ends of the empty lines after it. -/
  breaks : List Char

/-- What separates the last line from a line that begins with a blank or not. In a folded block the
end of a line that is followed by text is a blank. -/
def BlockDraft.separated (d : BlockDraft) (literal spaced : Bool) : List Char :=
  if !literal && d.lineEnd == ['\n'] && !d.spaced && !spaced then
    d.text ++ (if d.breaks.isEmpty then [' '] else d.breaks)
  else d.text ++ d.lineEnd ++ d.breaks

def BlockDraft.finish (d : BlockDraft) : Chomping → List Char
  | .strip => d.text
  | .clip => d.text ++ d.lineEnd
  | .keep => d.text ++ d.lineEnd ++ d.breaks

/-- Reads the lines of a block that stand at its indentation. -/
def blockFrom? (literal : Bool) (indent : Nat) : Nat → BlockDraft → Place → Option (BlockDraft × Place)
  | 0, _, _ => none
  | fuel + 1, d, p =>
    if p.column == indent && !p.rest.isEmpty then
      let spaced := (p.peek? 0).any isSpacing
      let line := p.rest.takeWhile (!isBreak ·)
      let text := d.separated literal spaced ++ line
      let p := p.skip line.length
      let lineEnd := ((p.peek? 0).map breakText).toList
      let p := p.nextLine
      match blockGap? indent 0 [] p.index p.line p.column p.rest with
      | none => none
      | some (_,breaks,p) => blockFrom? literal indent fuel ⟨text,lineEnd,spaced,breaks.reverse⟩ p
    else some (d,p)

/-- Reads a block scalar from its mark on. Its lines stand at column `floor` or further right. -/
def block? (literal : Bool) (floor : Nat) (p : Place) : Option ScalarRead := do
  let (chomping,given,p) ← blockHeader? (p.skip 1)
  let indent := if given == 0 then 0 else floor - 1 + given
  let (widest,breaks,p) ← blockGap? indent 0 [] p.index p.line p.column p.rest
  let indent := if indent == 0 then max (max widest floor) 1 else indent
  let (d,p) ← blockFrom? literal indent (p.rest.length + 1) ⟨[],[],false,breaks.reverse⟩ p
  some ⟨d.finish chomping,true,p⟩

end ScriptLint.Yaml
