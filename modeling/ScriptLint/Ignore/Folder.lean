import ScriptLint.FileTree
import ScriptLint.Ignore.Rule

/-! The rules that folders hold for what is in them. -/
namespace ScriptLint

/-- The ignore files of a folder. -/
structure FolderRules where
  route : Route
  /-- The rules that always apply. -/
  plain : List IgnoreRule
  /-- The rules that apply in repositories. -/
  tracked : List IgnoreRule
  /-- The rules that a repository keeps apart from its files. -/
  unshared : List IgnoreRule
  /-- Whether the folder is the top of a repository. -/
  isRepository : Bool

namespace FolderRules

/-- The lines of some bytes. -/
def lines : List UInt8 → List (List UInt8)
  | [] => []
  | b :: rest =>
    if b = 10 then [] :: lines rest
    else
      match lines rest with
      | [] => [[b]]
      | line :: more => (b :: line) :: more

/-- A line without the carriage return before its end. -/
def chomp (line : List UInt8) : List UInt8 :=
  if line.getLast? = some 13 then line.dropLast else line

/-- The texts of lines, up to the first one that is no text. -/
def texts : List (List UInt8) → List (List Char)
  | [] => []
  | line :: more =>
    match Text.decode ⟨line.toArray⟩ with
    | .ok cs => cs :: texts more
    | .error _ => []

/-- A text without the mark of its encoding. -/
def unmarked (cs : List Char) : List Char := cs.dropWhile (· == '\ufeff')

/-- The rules of an ignore file. Lines that cannot be read are passed over. -/
def ofContent (content : ByteArray) : List IgnoreRule :=
  let found := texts ((lines content.data.toList).map chomp)
  (unmarked (found.headD []) :: found.tail).filterMap fun line =>
    match IgnoreRule.parse .ignoreFile line with
    | .ok rule? => rule?
    | .error _ => none

/-- The rules in a file of a folder. -/
def ofFile (tree : FileTree) (route : Route) (names : List String) : List IgnoreRule :=
  match tree.content? (route ++ names.map String.toList) with
  | some content => ofContent content
  | none => []

/-- The rules that a folder holds. -/
def ofFolder (tree : FileTree) (route : Route) : FolderRules where
  route := route
  plain := ofFile tree route [".ignore"]
  tracked := ofFile tree route [".gitignore"]
  unshared := ofFile tree route [".git","info","exclude"]
  isRepository := (tree.entry? (route ++ [".git".toList])).isSome

/-- The folders around something, the nearest first. -/
def around (route : Route) : List Route :=
  (List.range route.length).reverse.map fun n => route.take n

/-- The verdict of one kind of rules in the folders around something: the nearest folder that has one
counts. -/
def verdict (kind : FolderRules → List IgnoreRule) (folders : List FolderRules) (route : Route)
    (isFolder : Bool) : Verdict :=
  folders.foldl (fun v f => v.or (.ofRules (kind f) (route.drop f.route.length) isFolder)) .silent

/-- The folders up to and with the nearest top of a repository, or none outside of repositories. -/
def ofRepository (folders : List FolderRules) : List FolderRules :=
  if folders.any (·.isRepository) then
    let below := folders.takeWhile (!·.isRepository)
    folders.take (below.length + 1)
  else []

end FolderRules

/-- What the ignore files around something say about it. -/
def FileTree.ignoreVerdict (tree : FileTree) (route : Route) (isFolder : Bool) : Verdict :=
  let folders := (FolderRules.around route).map (FolderRules.ofFolder tree)
  let repository := FolderRules.ofRepository folders
  ((FolderRules.verdict (·.plain) folders route isFolder).or
    (FolderRules.verdict (·.tracked) repository route isFolder)).or
    (FolderRules.verdict (·.unshared) repository route isFolder)

end ScriptLint
