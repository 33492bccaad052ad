import ScriptLint.Glob.Matching
import ScriptLint.Glob.Reading
import ScriptLint.Path
import ScriptLint.Text.Blank

/-! Rules that leave files and folders out of a walk. A rule is a line of text. -/
namespace ScriptLint

structure IgnoreRule where
  glob : Glob
  /-- Whether what matches is taken back in. -/
  restores : Bool
  /-- Whether only folders match. -/
  foldersOnly : Bool

namespace IgnoreRule

def trimRight (cs : List Char) : List Char := (cs.reverse.dropWhile Text.isBlank).reverse

def endsWith (cs ending : List Char) : Bool := ending.isSuffixOf cs

/-- A line without the blanks at its end. A blank after a backslash keeps them. -/
def trimmed (cs : List Char) : List Char := if endsWith cs ['\\',' '] then cs else trimRight cs

/-- What a line is made of: whether it restores, whether it is tied to the folder it is for, and the
rest. A backslash takes their meaning from a number sign and an exclamation mark. -/
def marks (cs : List Char) : Bool × Bool × List Char :=
  match cs with
  | '\\' :: '!' :: rest => (false,false,'!' :: rest)
  | '\\' :: '#' :: rest => (false,false,'#' :: rest)
  | '!' :: '/' :: rest => (true,true,rest)
  | '!' :: rest => (true,false,rest)
  | '/' :: rest => (false,true,rest)
  | rest => (false,false,rest)

/-- A slash at the end, which may be escaped, stands for folders. -/
def folderMark (cs : List Char) : Bool × List Char :=
  if endsWith cs ['/'] then
    let cs := cs.dropLast
    (true,if endsWith cs ['\\'] then cs.dropLast else cs)
  else (false,cs)

/-- The pattern of a line. Without a slash it matches in every folder, and two stars at the end do
not match the folder before them. -/
def pattern (tied : Bool) (cs : List Char) : List Char :=
  let cs := if tied || cs.contains '/' || cs == ['*','*'] then cs else '*' :: '*' :: '/' :: cs
  if endsWith cs ['/','*','*'] then cs ++ ['/','*'] else cs

/-- The rule of a line. Empty lines and comments have none. -/
def parse (options : GlobOptions) (line : List Char) : Except GlobFault (Option IgnoreRule) :=
  if line.head? == some '#' then .ok none
  else
    let line := trimmed line
    if line.isEmpty then .ok none
    else
      let (restores,tied,rest) := marks line
      let (foldersOnly,rest) := folderMark rest
      match Glob.parse options (String.ofList (pattern tied rest)) with
      | .error e => .error e
      | .ok g => .ok (some ⟨g,restores,foldersOnly⟩)

/-- Whether a rule matches what a route from its folder leads to. -/
def matchesRoute (rule : IgnoreRule) (route : List (List Char)) (isFolder : Bool) : Bool :=
  (!rule.foldersOnly || isFolder) && rule.glob.matchesPath (String.ofList (Path.unite route))

end IgnoreRule

/-- What rules say about a file or folder. -/
inductive Verdict where
  | silent | ignored | restored
  deriving Repr, DecidableEq

namespace Verdict

/-- What is said first counts. -/
def or : Verdict → Verdict → Verdict
  | silent, v => v
  | v, _ => v

/-- The verdict of several rules: that of the last one that matches. -/
def ofRules (rules : List IgnoreRule) (route : List (List Char)) (isFolder : Bool) : Verdict :=
  match rules.reverse.find? fun r => r.matchesRoute route isFolder with
  | none => silent
  | some r => if r.restores then restored else ignored

end Verdict
end ScriptLint
