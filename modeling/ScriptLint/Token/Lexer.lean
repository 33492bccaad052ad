import ScriptLint.Fault
import ScriptLint.Text.Blank
import ScriptLint.Text.Letter
import ScriptLint.Text.Utf8

/-! The tokens of a text. A text is a gap, a lexeme, a gap, a lexeme and so on; gaps hold blanks and
comments. Every scanner below answers how many characters it takes, so nothing is lost or read twice. -/
namespace ScriptLint.Token
open Text

/-- Where in a gap the reading stands: between comments, in a comment up to the end of its line, or
in a delimited comment, with the place it was opened and whether it has held a newline yet. -/
inductive GapState where
  | between
  | lineComment
  | blockComment (opened : Nat) (newline : Bool)

/-- The blanks and comments before a token: how many characters, and whether a line ends in them. -/
structure Gap where
  length : Nat
  newline : Bool
  deriving Repr, DecidableEq

/-- Characters that separate tokens without ending a line. -/
def isSpacing (c : Char) : Bool := isBlank c || c == '\ufeff'

/-- Reads a gap of which `n` characters are read already. The error is the place of a comment
that never ends. A delimited comment ends a line when it holds a line feed. -/
def gapFrom : GapState → (n : Nat) → (newline : Bool) → List Char → Except Nat Gap
  | .between, n, newline, '/' :: '/' :: cs => gapFrom .lineComment (n + 2) newline cs
  | .between, n, newline, '/' :: '*' :: cs => gapFrom (.blockComment n false) (n + 2) newline cs
  | .between, n, newline, c :: cs =>
    if isLineBreak c then gapFrom .between (n + 1) true cs
    else if isSpacing c then gapFrom .between (n + 1) newline cs
    else .ok ⟨n,newline⟩
  | .lineComment, n, newline, c :: cs =>
    if c == '\n' || c == '\r' then gapFrom .between (n + 1) true cs
    else gapFrom .lineComment (n + 1) newline cs
  | .blockComment _ held, n, newline, '*' :: '/' :: cs => gapFrom .between (n + 2) (newline || held) cs
  | .blockComment opened held, n, newline, c :: cs =>
    gapFrom (.blockComment opened (held || c == '\n')) (n + 1) newline cs
  | .blockComment opened _, _, _, [] => .error opened
  | .between, n, newline, [] => .ok ⟨n,newline⟩
  | .lineComment, n, newline, [] => .ok ⟨n,newline⟩

/-- The gap a text begins with. -/
def gap (cs : List Char) : Except Nat Gap := gapFrom .between 0 false cs

def isWordStart (c : Char) : Bool := isLetter c || c == '_' || c == '$'

def isWordPart (c : Char) : Bool :=
  isLetter c || isNumber c || c == '_' || c == '$' || c == '\u200c' || c == '\u200d'

/-- How far a number goes on after its character `last`. A second dot ends it; a sign belongs to it
directly after an exponent mark, unless it is a hexadecimal number. -/
def numberLength (hex dotted : Bool) (last : Char) : List Char → Nat
  | [] => 0
  | c :: cs =>
    if c == '.' then
      if dotted then 0 else numberLength hex true c cs + 1
    else if c.isAlphanum || c == '_' ||
        ((c == '+' || c == '-') && (last == 'e' || last == 'E') && !hex) then
      numberLength hex dotted c cs + 1
    else 0

/-- The number of characters of a string after its opening quote, the closing one included; `n` of
them are read already. A backslash takes the next character with it, whatever it is. -/
def stringLength? (quote : Char) (n : Nat) : List Char → Option Nat
  | [] => none
  | c :: cs =>
    if c == '\\' then
      match cs with
      | [] => none
      | _ :: cs => stringLength? quote (n + 2) cs
    else if c == quote then some (n + 1)
    else if c == '\n' then none
    else stringLength? quote (n + 1) cs

/-- The number of characters of a template after its opening mark, the closing one included; `n` of
them are read already. Substitutions are passed over by counting braces. -/
def templateLength? (depth n : Nat) : List Char → Option Nat
  | [] => none
  | c :: cs =>
    if c == '\\' then
      match cs with
      | [] => none
      | _ :: cs => templateLength? depth (n + 2) cs
    else if c == '\x60' && depth == 0 then some (n + 1)
    else if c == '$' && depth == 0 then
      match cs with
      | '{' :: cs => templateLength? 1 (n + 2) cs
      | cs => templateLength? depth (n + 1) cs
    else if c == '{' && depth != 0 then templateLength? (depth + 1) (n + 1) cs
    else if c == '}' && depth != 0 then templateLength? (depth - 1) (n + 1) cs
    else templateLength? depth (n + 1) cs

/-- The punctuator at the beginning of a text. A question mark before a decimal fraction is not the
beginning of an optional access. -/
def punctAt? (cs : List Char) : Option Punct :=
  match Punct.leading? cs with
  | some .optionalDot =>
    if ((cs.drop 2).head?.map Char.isDigit).getD false then some .question else some .optionalDot
  | found => found

/-- The kind of the lexeme that begins with `c` and goes on with characters of `cs`, and the number
of those. -/
def lexeme (c : Char) (cs : List Char) : Except Fault (TokenKind × Nat) :=
  let spelled (kind : String → TokenKind) (n : Nat) : TokenKind × Nat :=
    (kind (String.ofList (c :: cs.take n)),n)
  if c == '\\' then .error .escapedIdentifier
  else if isWordStart c then .ok (spelled .ofWord (cs.takeWhile isWordPart).length)
  else if c.isDigit || (c == '.' && (cs.head?.map Char.isDigit).getD false) then
    let hex := c == '0' && (cs.head? == some 'x' || cs.head? == some 'X')
    .ok (spelled .number (numberLength hex (c == '.') c cs))
  else if c == '"' || c == '\'' then
    match stringLength? c 0 cs with
    | some n => .ok (spelled .string n)
    | none => .error .unterminatedString
  else if c == '\x60' then
    match templateLength? 0 0 cs with
    | some n => .ok (spelled .template n)
    | none => .error .unterminatedTemplate
  else
    match punctAt? (c :: cs) with
    | some p => .ok (.punct p,p.text.length - 1)
    | none => .error (.unexpectedCharacter c)

/-- The tokens of a text whose first character stands at byte `start`, with the end of input last. -/
def scanFrom (start : Nat) (cs : List Char) : Except SyntaxError (List Token) :=
  match gap cs with
  | .error n => .error ⟨.unterminatedComment,start + width (cs.take n)⟩
  | .ok g =>
    let start := start + width (cs.take g.length)
    match _h : cs.drop g.length with
    | [] => .ok [⟨.endOfInput,⟨start,start⟩,g.newline⟩]
    | c :: rest =>
      match lexeme c rest with
      | .error fault => .error ⟨fault,start⟩
      | .ok (kind,n) =>
        let stop := start + width (c :: rest.take n)
        match scanFrom stop (rest.drop n) with
        | .error e => .error e
        | .ok tokens => .ok (⟨kind,⟨start,stop⟩,g.newline⟩ :: tokens)
termination_by cs.length
decreasing_by
  have := congrArg List.length _h
  simp only [List.length_drop,List.length_cons] at this ⊢
  omega

/-- The tokens of a text. -/
def scan (cs : List Char) : Except SyntaxError (List Token) := scanFrom 0 cs

end ScriptLint.Token
