import ScriptLint.Yaml.Scalar

/-! The lexemes of a text. Block collections are told by columns: a deeper column opens one, and a
column further left closes all that are deeper. What comes before a colon turns out to be a key only
at the colon, so the places where keys may begin are remembered. -/
namespace ScriptLint.Yaml

/-- A place where a key may have begun. -/
structure KeyStart where
  /-- The number of lexemes before it. -/
  position : Nat
  /-- Whether there must be a colon, since nothing but a key may stand there. -/
  required : Bool
  index : Nat
  line : Nat
  column : Nat

/-- How far a text is read. -/
structure Scan where
  place : Place
  lexemes : Array Lexeme
  /-- The columns of the open block collections, the innermost first. -/
  columns : List Nat
  /-- Where a key may have begun, for each open bracket and the block around them, the innermost
  first. -/
  keys : List (Option KeyStart)
  /-- Whether a key may begin here. -/
  keyAllowed : Bool

namespace Scan

def start (text : List Char) : Scan := ⟨.start text,#[],[],[none],true⟩

/-- Whether there is an open bracket. -/
def inFlow (s : Scan) : Bool := 1 < s.keys.length

/-- The least column of what belongs to the innermost block collection. -/
def floor (s : Scan) : Nat :=
  match s.columns with
  | [] => 0
  | c :: _ => c + 1

def push (s : Scan) (l : Lexeme) : Scan := { s with lexemes := s.lexemes.push l }

def allow (s : Scan) (keyAllowed : Bool) : Scan := { s with keyAllowed := keyAllowed }

/-- Adds a lexeme of some characters that stand here. -/
def take (s : Scan) (n : Nat) (l : Lexeme) : Scan := { s.push l with place := s.place.skip n }

/-- Closes the block collections whose column is further right than `column`, or all of them. -/
def close (s : Scan) (column? : Option Nat) : Scan :=
  if s.inFlow then s
  else
    let deeper := s.columns.takeWhile fun c => column?.all (· < c)
    { s with
      columns := s.columns.drop deeper.length
      lexemes := s.lexemes ++ (deeper.map fun _ => Lexeme.blockEnd).toArray }

/-- Opens a block collection at a column if it is further right than the one around it. Its lexeme
comes before the lexeme at a position. -/
def openAt (s : Scan) (column position : Nat) (l : Lexeme) : Scan :=
  if s.inFlow || column < s.floor then s
  else { s with columns := column :: s.columns, lexemes := s.lexemes.insertIdxIfInBounds position l }

/-- Gives up the place where a key may have begun. -/
def forget? (s : Scan) : Option Scan :=
  match s.keys with
  | some k :: _ => if k.required then none else some { s with keys := none :: s.keys.drop 1 }
  | _ => some s

/-- Remembers that a key may begin here. -/
def remember? (s : Scan) : Option Scan :=
  if s.keyAllowed then
    s.forget?.map fun s =>
      let p := s.place
      let required := !s.inFlow && s.columns.head? == some p.column
      { s with keys := some ⟨s.lexemes.size,required,p.index,p.line,p.column⟩ :: s.keys.drop 1 }
  else some s

/-- The longest distance between the beginning of a key and its colon. -/
def keyReach : Nat := 1024

/-- Gives up the places where keys cannot have begun, since the line has ended or the colon would be
too far away. -/
def expire? (s : Scan) : Option Scan := do
  let keys ← s.keys.mapM fun key? =>
    match key? with
    | none => some none
    | some k =>
      if k.line < s.place.line || k.index + keyReach < s.place.index then
        if k.required then none else some none
      else some (some k)
  some { s with keys := keys }

/-- Goes to the next lexeme. A tab may not stand where a key may begin. -/
def toNext : Nat → Scan → Scan
  | 0, s => s
  | fuel + 1, s =>
    let p := s.place
    let p := if p.index == 0 && p.peek? 0 == some '\ufeff' then p.skip 1 else p
    let p := p.skipWhile fun c => c == ' ' || ((s.inFlow || !s.keyAllowed) && c == '\t')
    let p := if p.peek? 0 == some '#' then p.skipWhile (!isBreak ·) else p
    if p.atBreak then
      toNext fuel { s with place := p.nextLine, keyAllowed := s.keyAllowed || !s.inFlow }
    else { s with place := p }

/-- The name after the mark of an anchor or an alias. -/
def name? (s : Scan) (l : List Char → Lexeme) : Option Scan :=
  let name := (s.place.rest.drop 1).takeWhile isNamePart
  let next? := s.place.peek? (name.length + 1)
  if name.isEmpty then none
  else if endsWord next? || next?.any ['?',':',',',']','}','%','@','\x60'].contains then
    some (s.take (name.length + 1) (l name))
  else none

/-- The characters of tags, without those allowed only between angle brackets. -/
def isTagPart (c : Char) : Bool :=
  isNamePart c ||
    [';','/','?',':','@','&','=','+','$','.','!','~','*','\'','(',')'].contains c

/-- The bytes of one character written as percent escapes. -/
def percentBytes? : Nat → List Char → Option (List UInt8)
  | 0, _ => some []
  | n + 1, '%' :: a :: b :: cs => do
    let v ← hexValue? [a,b]
    let more ← percentBytes? n cs
    some (v.toUInt8 :: more)
  | _ + 1, _ => none

/-- The number of bytes of a character by its first byte. -/
def byteCount? (b : UInt8) : Option Nat :=
  if b < 0x80 then some 1
  else if 0xC0 ≤ b && b < 0xE0 then some 2
  else if 0xE0 ≤ b && b < 0xF0 then some 3
  else if 0xF0 ≤ b && b < 0xF8 then some 4
  else none

/-- Reads a tag: its characters, and how many characters of the text they take. -/
def tagText? (verbatim : Bool) : Nat → List Char → Option (List Char × Nat)
  | 0, _ => some ([],0)
  | fuel + 1, cs =>
    match cs with
    | [] => some ([],0)
    | c :: rest =>
      if c == '%' then do
        let first ← percentBytes? 1 cs
        let count ← first.head?.bind byteCount?
        let bytes ← percentBytes? count cs
        let text ← String.fromUTF8? ⟨bytes.toArray⟩
        let (more,n) ← tagText? verbatim fuel (cs.drop (3 * count))
        some (text.toList ++ more,n + 3 * count)
      else if isTagPart c || (verbatim && [',','[',']'].contains c) then
        (tagText? verbatim fuel rest).map fun (more,n) => (c :: more,n + 1)
      else some ([],0)

/-- Reads a tag. It is written in angle brackets, or as a handle and a suffix. -/
def tag? (s : Scan) : Option Scan :=
  let rest := s.place.rest
  let finish (n : Nat) (handle suffix : List Char) : Option Scan :=
    let next? := s.place.peek? n
    if endsWord next? || (s.inFlow && next? == some ',') then some (s.take n (.tag handle suffix))
    else none
  match rest.drop 1 with
  | '<' :: uri => do
    let (text,n) ← tagText? true uri.length uri
    if text.isEmpty || uri[n]? != some '>' then none else finish (n + 3) [] text
  | more => do
    let name := more.takeWhile isNamePart
    if (more.drop name.length).head? == some '!' then
      let uri := more.drop (name.length + 1)
      let (text,n) ← tagText? false uri.length uri
      if text.isEmpty then none else finish (name.length + 2 + n) ('!' :: name ++ ['!']) text
    else
      let uri := more.drop name.length
      let (text,n) ← tagText? false uri.length uri
      let suffix := name ++ text
      if suffix.isEmpty then finish 1 [] ['!'] else finish (1 + name.length + n) ['!'] suffix

/-- Reads the number of a version. -/
def versionNumber? (p : Place) : Option (Nat × Place) :=
  let digits := p.rest.takeWhile Char.isDigit
  if digits.isEmpty || 9 < digits.length then none
  else some (digits.foldl (fun n c => 10 * n + (c.toNat - '0'.toNat)) 0,p.skip digits.length)

/-- Reads a directive at a percent sign. -/
def directive? (s : Scan) : Option Scan := do
  let p := s.place.skip 1
  let name := p.rest.takeWhile isNamePart
  let p := p.skip name.length
  if name.isEmpty || !endsWord (p.peek? 0) then none
  else
    let q := p.skipWhile isSpacing
    let (l,p) ←
      if name == "YAML".toList then do
        let (major,p) ← versionNumber? q
        if p.peek? 0 == some '.' then
          let (minor,p) ← versionNumber? (p.skip 1)
          some (Lexeme.version major minor,p)
        else none
      else if name == "TAG".toList then
        if q.peek? 0 == some '!' then
          let word := (q.rest.drop 1).takeWhile isNamePart
          let closed := (q.rest.drop (word.length + 1)).head? == some '!'
          let handle := if closed then '!' :: word ++ ['!'] else '!' :: word
          if !closed && !word.isEmpty then none
          else
            let p := q.skip handle.length
            if !(p.peek? 0).any isSpacing then none
            else
              let p := p.skipWhile isSpacing
              let (text,n) ← tagText? true p.rest.length p.rest
              if text.isEmpty || !endsWord (p.peek? n) then none
              else some (Lexeme.tagHandle handle text,p.skip n)
        else none
      else none
    let p ← p.endLine?
    some { s.push l with place := p }

/-- Adds a scalar. A key may begin after it if a line has ended. -/
def scalar (s : Scan) (plain : Bool) (r : ScalarRead) : Scan :=
  { s.push (.scalar r.text plain) with place := r.place, keyAllowed := r.broken }

/-- What an opening bracket leads to. -/
def openBracket? (s : Scan) (l : Lexeme) : Option Scan :=
  s.remember?.map fun s => { s.take 1 l with keys := none :: s.keys, keyAllowed := true }

/-- What a closing bracket leads to. -/
def closeBracket? (s : Scan) (l : Lexeme) : Option Scan :=
  s.forget?.map fun s =>
    { s.take 1 l with keys := if s.inFlow then s.keys.drop 1 else s.keys, keyAllowed := false }

/-- What the mark of an entry or a key leads to. It opens a collection where a key may begin, and may
not stand elsewhere in a block. -/
def blockMark? (s : Scan) (opening l : Lexeme) (keyAllowed : Bool) : Option Scan :=
  if !s.inFlow && !s.keyAllowed then none
  else
    (s.openAt s.place.column s.lexemes.size opening).forget?.map fun s => (s.take 1 l).allow keyAllowed

/-- What a colon leads to. It makes a key of what may be one, and else its value has no key before
it. -/
def colon? (s : Scan) : Option Scan :=
  match s.keys with
  | some k :: keys =>
    let s := { s with lexemes := s.lexemes.insertIdxIfInBounds k.position .key, keys := none :: keys }
    some (((s.openAt k.column k.position .blockMapping).take 1 .value).allow false)
  | _ =>
    if !s.inFlow && !s.keyAllowed then none
    else
      let s := s.openAt s.place.column s.lexemes.size .blockMapping
      some ((s.take 1 .value).allow !s.inFlow)

/-- Characters that begin no plain scalar. -/
def isIndicator (c : Char) : Bool :=
  ['-','?',':',',','[',']','{','}','#','&','*','!','|','>','\'','"','%','@',
    '\x60'].contains c

/-- Whether a plain scalar begins here. -/
def beginsPlain (s : Scan) (c : Char) : Bool :=
  !(isIndicator c || endsWord (some c)) ||
    (c == '-' && !(s.place.peek? 1).any isSpacing) ||
    (!s.inFlow && (c == '?' || c == ':') && !endsWord (s.place.peek? 1))

/-- Reads the lexeme that begins with `c`. -/
def lexeme? (s : Scan) (c : Char) : Option Scan :=
  let p := s.place
  let alone := endsWord (p.peek? 1)
  let marked (l : Lexeme) : Option Scan :=
    (s.close none).forget?.map fun s => (s.take 3 l).allow false
  if p.column == 0 && c == '%' then (s.close none).forget?.bind fun s => (s.allow false).directive?
  else if p.marks '-' then marked .documentStart
  else if p.marks '.' then marked .documentEnd
  else if c == '[' then s.openBracket? .flowSequence
  else if c == '{' then s.openBracket? .flowMapping
  else if c == ']' then s.closeBracket? .flowSequenceEnd
  else if c == '}' then s.closeBracket? .flowMappingEnd
  else if c == ',' then s.forget?.map fun s => (s.take 1 .flowEntry).allow true
  else if c == '-' && alone then s.blockMark? .blockSequence .blockEntry true
  else if c == '?' && (s.inFlow || alone) then s.blockMark? .blockMapping .key !s.inFlow
  else if c == ':' && (s.inFlow || alone) then s.colon?
  else if c == '*' then s.remember?.bind fun s => (s.allow false).name? .alias
  else if c == '&' then s.remember?.bind fun s => (s.allow false).name? .anchor
  else if c == '!' then s.remember?.bind fun s => (s.allow false).tag?
  else if (c == '|' || c == '>') && !s.inFlow then
    s.forget?.bind fun s => (block? (c == '|') s.floor p).map (s.scalar false)
  else if c == '\'' || c == '"' then
    s.remember?.bind fun s => (quoted? c p).map (s.scalar false)
  else if s.beginsPlain c then
    s.remember?.bind fun s => (plain? s.inFlow s.floor p).map (s.scalar true)
  else none

/-- Reads lexeme after lexeme up to the end of the text. -/
def run? : Nat → Scan → Option (List Lexeme)
  | 0, _ => none
  | fuel + 1, s =>
    match (s.toNext (s.place.rest.length + 1)).expire? with
    | none => none
    | some s =>
      let s := s.close (some s.place.column)
      match s.place.rest with
      | [] => (s.close none).forget?.map fun s => s.lexemes.toList
      | c :: _ =>
        match s.lexeme? c with
        | none => none
        | some s => run? fuel s

end Scan

/-- The lexemes of a text, if it has such. -/
def lexemes? (text : List Char) : Option (List Lexeme) :=
  if text.all isPrintable then (Scan.start text).run? (text.length + 1) else none

end ScriptLint.Yaml
