import ScriptLint.Ignore.Folder
import ScriptLint.Linter

/-! Finding the files to inspect. -/
namespace ScriptLint

/-- Why files cannot be found. -/
inductive DiscoveryFault where
  | missing (path : String)
  /-- An excluded pattern cannot be read. -/
  | badPattern (pattern : String) (fault : GlobFault)
  /-- A folder cannot be walked to its end. -/
  | brokenWalk (cause : String)
  deriving Repr, DecidableEq

namespace Discovery

/-- The line that excludes a pattern from a walk: one that would restore in an ignore file. -/
def exclusionLine (pattern : String) : List Char := '!' :: pattern.toList

end Discovery

def DiscoveryFault.message : DiscoveryFault → String
  | .missing path => "path does not exist: " ++ path
  | .badPattern pattern fault =>
    "invalid exclude pattern: " ++ pattern ++ ": " ++
      fault.message (String.ofList (IgnoreRule.trimmed (Discovery.exclusionLine pattern)))
  | .brokenWalk cause => "error walking directory: " ++ cause

/-- What is asked of files and folders to find files: which paths are those of files and which those
of folders, and what a walk of a folder that leaves out some patterns comes to. -/
structure FileSystem where
  isFile : String → Bool
  isFolder : String → Bool
  walk : (folder : String) → (excluded : List String) → Except DiscoveryFault (List String)
  /-- No path is that of a file and of a folder. -/
  disjoint : ∀ path, isFile path = true → isFolder path = false

namespace FileSystem

/-- The scripts that the walk of a folder comes to. -/
def scripts (files : FileSystem) (config : Config) (folder : String) :
    Except DiscoveryFault (List String) := do
  let found ← files.walk folder config.excluded
  return found.filter fun path => files.isFile path && Path.isScript path

/-- The files that one path stands for, and whether it names a file. Files that are named count
whatever they are called. -/
def ofPath (files : FileSystem) (config : Config) (path : String) :
    Except DiscoveryFault (List String × Bool) :=
  if files.isFile path then .ok ([path],true)
  else if files.isFolder path then (files.scripts config path).map fun found => (found,false)
  else .error (.missing path)

/-- The files that some paths stand for. -/
def discover (files : FileSystem) (config : Config) (paths : List String) :
    Except DiscoveryFault Targets := do
  let found ← paths.mapM (files.ofPath config)
  return ⟨Path.sortUnique (found.flatMap (·.1)),
    Path.sortUnique ((found.filter (·.2)).flatMap (·.1))⟩

end FileSystem

namespace Discovery

/-- The rules of excluded patterns. -/
def exclusions (patterns : List String) : Except DiscoveryFault (List IgnoreRule) := do
  let rules ← patterns.mapM fun p =>
    match IgnoreRule.parse .exclusion (exclusionLine p) with
    | .ok rule? => Except.ok rule?
    | .error e => .error (.badPattern p e)
  return rules.filterMap id

/-- Whether a name is that of something hidden. -/
def isHidden (route : Route) : Bool := (route.getLast?.bind List.head?) == some '.'

/-- Whether a walk that started at a folder passes over what a route leads to. Exclusions beat ignore
files, and what those restore is shown even if it is hidden. -/
def passesOver (tree : FileTree) (rules : List IgnoreRule) (top route : Route) (isFolder : Bool) :
    Bool :=
  rules.any (·.matchesRoute (route.drop top.length) isFolder) ||
    match tree.ignoreVerdict route isFolder with
    | .ignored => true
    | .restored => false
    | .silent => isHidden route

/-- The routes from below `top` to `route`, `route` apart. -/
def between (top route : Route) : List Route :=
  (List.range' (top.length + 1) (route.length - (top.length + 1))).map fun n => route.take n

/-- Whether a walk that started at a folder comes to a file. -/
def reaches (tree : FileTree) (rules : List IgnoreRule) (top route : Route) : Bool :=
  top.isPrefixOf route && top.length < route.length &&
    (between top route).all (fun r => !passesOver tree rules top r true) &&
    !passesOver tree rules top route false

/-- The files that a walk of a folder comes to. They are named after the path that was given. -/
def walk (tree : FileTree) (rules : List IgnoreRule) (path : String) (top : Route) : List String :=
  (tree.fileRoutes.filter (reaches tree rules top)).map fun route =>
    Path.join path (String.ofList (Path.unite (route.drop top.length)))

end Discovery

namespace FileTree

/-- Files and folders as a file system. -/
def fileSystem (tree : FileTree) : FileSystem where
  isFile := tree.isFile
  isFolder := tree.isFolder
  walk folder excluded := do
    let rules ← Discovery.exclusions excluded
    match tree.find folder with
    | .ok (top,_) => return Discovery.walk tree rules folder top
    | .error fault => .error (.brokenWalk fault.message)
  disjoint path h := by
    unfold isFile at h
    unfold isFolder
    split at h
    next hfind => rw [hfind]
    · cases h

/-- The files that some paths stand for. -/
def discover (tree : FileTree) (config : Config) (paths : List String) :
    Except DiscoveryFault Targets :=
  tree.fileSystem.discover config paths

end FileTree
end ScriptLint
