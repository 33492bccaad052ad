import ScriptLint.Glob.Basic

/-! Matching a path against a pattern, byte by byte. A piece is a relation between the bytes left
before and after it, given by the list of all that may be left. -/
namespace ScriptLint

namespace Piece

def slash : UInt8 := 47

/-- A range of characters as ranges of bytes: a set of bytes cannot tell the bytes of one character
from those of another, so all but the ends of the range stand for themselves. -/
def byteRanges (low high : Char) : List (UInt8 × UInt8) :=
  let alone := fun (b : UInt8) => (b,b)
  if low = high then (String.utf8EncodeChar low).map alone
  else
    match (String.utf8EncodeChar low).reverse, String.utf8EncodeChar high with
    | l :: ls, h :: hs => ls.reverse.map alone ++ [(l,h)] ++ hs.map alone
    | _, _ => []

/-- Whether a byte belongs to a set. -/
def inSet (ranges : List (Char × Char)) (b : UInt8) : Bool :=
  ranges.any fun (low,high) => (byteRanges low high).any fun (l,h) => l ≤ b && b ≤ h

/-- What is left after each slash. -/
def afterSlashes : List UInt8 → List (List UInt8)
  | [] => []
  | b :: rest => if b = slash then rest :: afterSlashes rest else afterSlashes rest

/-- What is left after any run of bytes. -/
def afterRun : List UInt8 → List (List UInt8)
  | [] => [[]]
  | b :: rest => (b :: rest) :: afterRun rest

/-- What is left after any run of bytes up to the next slash. -/
def afterName : List UInt8 → List (List UInt8)
  | [] => [[]]
  | b :: rest => (b :: rest) :: if b = slash then [] else afterName rest

/-- What is left after one byte with a property. -/
def afterByte (p : UInt8 → Bool) : List UInt8 → List (List UInt8)
  | [] => []
  | b :: rest => if p b then [rest] else []

/-- What is left after some given bytes. -/
def afterText : List UInt8 → List UInt8 → List (List UInt8)
  | [], s => [s]
  | _ :: _, [] => []
  | a :: as, b :: rest => if a = b then afterText as rest else []

mutual

/-- All that may be left of some bytes after a piece. -/
def rests (spansSlash : Bool) : Piece → List UInt8 → List (List UInt8)
  | .literal c, s => afterText (String.utf8EncodeChar c) s
  | .any, s => afterByte (fun b => spansSlash || b ≠ slash) s
  | .star, s => if spansSlash then afterRun s else afterName s
  | .leading, s => s :: afterSlashes s
  | .trailing, s => (afterByte (· == slash) s).flatMap afterRun
  | .between, s => (afterByte (· == slash) s).flatMap fun r => r :: afterSlashes r
  | .set negated ranges, s => afterByte (fun b => inSet ranges b != negated) s
  | .choice [], s => [s]
  | .choice (b :: bs), s => restsOfAny spansSlash (b :: bs) s

/-- All that may be left after a list of pieces. -/
def restsOfAll (spansSlash : Bool) : List Piece → List (List UInt8) → List (List UInt8)
  | [], ss => ss
  | p :: ps, ss => restsOfAll spansSlash ps (ss.flatMap (rests spansSlash p)).eraseDups

/-- All that may be left after one of several branches. -/
def restsOfAny (spansSlash : Bool) : List (List Piece) → List UInt8 → List (List UInt8)
  | [], _ => []
  | b :: bs, s => restsOfAll spansSlash b [s] ++ restsOfAny spansSlash bs s

end

end Piece

namespace Glob

/-- Whether a pattern matches all of a path. Two stars alone match everything. -/
def matchesBytes (g : Glob) (path : List UInt8) : Bool :=
  match g.pieces with
  | [.leading] => true
  | ps => (Piece.restsOfAll g.options.spansSlash ps [path]).contains []

def matchesPath (g : Glob) (path : String) : Bool := g.matchesBytes path.toUTF8.data.toList

end Glob
end ScriptLint
