import ScriptLint.Glob.Basic

/-! Reading a path pattern from its text. -/
namespace ScriptLint
namespace Glob

/-- The ranges of a set as they are read, the last one first. -/
structure SetDraft where
  ranges : List (Char × Char)
  /-- Whether a dash was just read that may extend the last range. -/
  dash : Bool

/-- Takes one more character into a set. A dash between two characters makes a range of them. -/
def SetDraft.add (d : SetDraft) (c : Char) : Except GlobFault SetDraft :=
  match d.ranges with
  | [] => .ok ⟨[(c,c)],false⟩
  | (low,high) :: older =>
    if d.dash then
      if c < low then .error (.invalidRange low c) else .ok ⟨(low,c) :: older,false⟩
    else if c = '-' then .ok ⟨d.ranges,true⟩
    else .ok ⟨(c,c) :: (low,high) :: older,false⟩

/-- The ranges in the order in which they were written. A dash at the end stands for itself. -/
def SetDraft.finish (d : SetDraft) : List (Char × Char) :=
  (if d.dash then ('-','-') :: d.ranges else d.ranges).reverse

/-- Reads a set up to its closing bracket. A bracket in the first place belongs to the set. The
result is `none` if the bracket never comes. -/
def readRanges (d : SetDraft) :
    (cs : List Char) →
      Except GlobFault (Option (List (Char × Char) × { r : List Char // r.length < cs.length }))
  | [] => .ok none
  | c :: rest =>
    if c = ']' && !d.ranges.isEmpty then .ok (some (d.finish,⟨rest,by simp⟩))
    else do
      let d' ← d.add c
      match ← readRanges d' rest with
      | none => .ok none
      | some (ranges,⟨r,h⟩) => .ok (some (ranges,⟨r,by simp only [List.length_cons]; omega⟩))

/-- Reads a set after its opening bracket. -/
def readSet (cs : List Char) :
    Except GlobFault (Option (Piece × { r : List Char // r.length ≤ cs.length })) :=
  match cs with
  | [] => .ok none
  | c :: rest =>
    if c = '!' || c = '^' then
      (readRanges ⟨[],false⟩ rest).map fun found? =>
        found?.map fun (ranges,⟨r,h⟩) =>
          (.set true ranges,⟨r,by simp only [List.length_cons]; omega⟩)
    else
      (readRanges ⟨[],false⟩ (c :: rest)).map fun found? =>
        found?.map fun (ranges,⟨r,h⟩) => (.set false ranges,⟨r,by omega⟩)

/-- A choice whose branches are being read: the branches that are done and the pieces before it,
both with the last one first. -/
structure OpenChoice where
  done : List (List Piece)
  before : List Piece

/-- A pattern that is being read. -/
structure Draft where
  /-- The pieces of the current branch, the last one first. -/
  pieces : List Piece
  /-- The choices around it, the innermost first. -/
  choices : List OpenChoice
  /-- Whether a bracket was found that is never closed. -/
  stray : Bool

/-- Whether a piece matches nothing but the empty text for want of branches. -/
def isVoid : Piece → Bool
  | .choice [] => true
  | _ => false

namespace Draft

def push (d : Draft) (p : Piece) : Draft := { d with pieces := p :: d.pieces }

/-- Puts a piece in the place of the last one. -/
def replaceLast (d : Draft) (p : Piece) : Draft := { d with pieces := p :: d.pieces.drop 1 }

def openChoice (d : Draft) : Draft :=
  { d with pieces := [], choices := ⟨[],d.pieces⟩ :: d.choices }

/-- Ends a branch at a comma, which outside of choices is a character like others. -/
def comma (d : Draft) : Draft :=
  match d.choices with
  | [] => d.push (.literal ',')
  | c :: outer => { d with pieces := [], choices := ⟨d.pieces.reverse :: c.done,c.before⟩ :: outer }

/-- Ends a choice. Branches that match only the empty text for want of pieces are dropped. -/
def closeChoice (d : Draft) : Except GlobFault Draft :=
  match d.choices with
  | [] => .error .unopenedChoice
  | c :: outer =>
    let branches := (d.pieces.reverse :: c.done).reverse.filter fun b => !b.all isVoid
    .ok { d with pieces := .choice branches :: c.before, choices := outer }

/-- What two stars stand for in the middle or at the end of a pattern. Stars that already stand
for folders swallow them. -/
def folders (d : Draft) (atEnd : Bool) : Draft :=
  match d.pieces.head? with
  | some .leading => d
  | some .trailing => d
  | _ => d.replaceLast (if atEnd then .trailing else .between)

/-- Takes two stars that stand after `last?` and before `rest`, and says how much of `rest` belongs to
them. They stand for folders if they fill the place between two slashes, and else for two single
stars. -/
def stars (d : Draft) (last? : Option Char) (rest : List Char) : Draft × Bool :=
  let plain := ((d.push .star).push .star,false)
  if d.pieces.isEmpty then
    match rest with
    | [] => (d.push .leading,false)
    | c :: _ => if c = '/' then (d.push .leading,true) else plain
  else if last? ≠ some '/' && (d.choices.isEmpty || (last? ≠ some ',' && last? ≠ some '\x7b')) then
    plain
  else
    match rest with
    | [] => (d.folders true,false)
    | c :: _ =>
      if (c = ',' || c = '\x7d') && !d.choices.isEmpty then (d.folders true,false)
      else if c = '/' then (d.folders false,true)
      else plain

end Draft

/-- Reads the rest of a pattern after the character `last?`. -/
def readPieces (options : GlobOptions) (d : Draft) (last? : Option Char) (cs : List Char) :
    Except GlobFault Draft :=
  match cs with
  | [] => .ok d
  | '?' :: rest => readPieces options (d.push .any) (some '?') rest
  | '*' :: '*' :: rest =>
    match d.stars last? rest with
    | (d',true) => readPieces options d' (some '/') (rest.drop 1)
    | (d',false) => readPieces options d' (some '*') rest
  | '*' :: rest => readPieces options (d.push .star) (some '*') rest
  | '\x7b' :: rest => readPieces options d.openChoice (some '\x7b') rest
  | '\x7d' :: rest =>
    match d.closeChoice with
    | .ok d' => readPieces options d' (some '\x7d') rest
    | .error e => .error e
  | ',' :: rest => readPieces options d.comma (some ',') rest
  | '\\' :: [] => .error .danglingEscape
  | '\\' :: c :: rest => readPieces options (d.push (.literal c)) (some c) rest
  | c :: rest =>
    if c = '[' && !d.stray then
      match readSet rest with
      | .error e => .error e
      | .ok (some (p,⟨r,_⟩)) => readPieces options (d.push p) (some ']') r
      | .ok none =>
        if options.opensFreely then
          readPieces options { d.push (.literal '[') with stray := true } (some '[') rest
        else .error .unclosedSet
    else readPieces options (d.push (.literal c)) (some c) rest
  termination_by cs.length
  decreasing_by all_goals simp_wf; try omega

/-- The pattern that a text stands for. -/
def parse (options : GlobOptions) (text : String) : Except GlobFault Glob :=
  match readPieces options ⟨[],[],false⟩ none text.toList with
  | .error e => .error e
  | .ok d => if d.choices.isEmpty then .ok ⟨options,d.pieces.reverse⟩ else .error .unclosedChoice

end Glob
end ScriptLint
