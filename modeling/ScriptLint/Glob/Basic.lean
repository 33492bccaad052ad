/-! Path patterns. A pattern is a list of pieces, some of which stand for any text. -/
namespace ScriptLint

/-- What a path pattern is made of. -/
inductive Piece where
  | literal (c : Char)
  /-- One byte. -/
  | any
  /-- Any run of bytes. -/
  | star
  /-- No folder or any chain of folders before the rest, written with two stars at the beginning. -/
  | leading
  /-- Everything below a folder, written with two stars at the end. -/
  | trailing
  /-- A slash or any chain of folders between two parts. -/
  | between
  /-- One byte of a set. -/
  | set (negated : Bool) (ranges : List (Char × Char))
  /-- One of several branches; nothing at all if there are none. -/
  | choice (branches : List (List Piece))

/-- How patterns are read and matched. -/
structure GlobOptions where
  /-- Whether one star, or a piece for a single byte, may stand for a slash. -/
  spansSlash : Bool
  /-- Whether a bracket that is never closed stands for itself. -/
  opensFreely : Bool

namespace GlobOptions

/-- Patterns of cops, which match whole paths. -/
def path : GlobOptions := ⟨true,false⟩

/-- Patterns of exclusions from a walk. -/
def exclusion : GlobOptions := ⟨false,false⟩

/-- Patterns of ignore files. -/
def ignoreFile : GlobOptions := ⟨false,true⟩

end GlobOptions

/-- Why a text is no pattern. -/
inductive GlobFault where
  | unclosedSet
  | invalidRange (low high : Char)
  | unopenedChoice
  | unclosedChoice
  | danglingEscape
  deriving Repr, DecidableEq

namespace GlobFault

def reason : GlobFault → String
  | unclosedSet => "unclosed character class; missing ']'"
  | invalidRange low high =>
    "invalid range; '" ++ low.toString ++ "' > '" ++ high.toString ++ "'"
  | unopenedChoice =>
    "unopened alternate group; missing '\x7b' (maybe escape '\x7d' with '[\x7d]'?)"
  | unclosedChoice =>
    "unclosed alternate group; missing '\x7d' (maybe escape '\x7b' with '[\x7b]'?)"
  | danglingEscape => "dangling '\\'"

/-- What is said of a text that is no pattern. -/
def message (fault : GlobFault) (text : String) : String :=
  "error parsing glob '" ++ text ++ "': " ++ fault.reason

end GlobFault

/-- A pattern that can be matched. -/
structure Glob where
  options : GlobOptions
  pieces : List Piece

end ScriptLint
