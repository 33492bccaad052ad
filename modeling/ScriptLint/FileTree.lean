import ScriptLint.Path
import ScriptLint.Source
import ScriptLint.Text.Utf8

/-! Files and folders, and the folder that a run starts in. -/
namespace ScriptLint

/-- The names that lead to a file or folder. -/
abbrev Route := List (List Char)

/-- What stands at the end of a route. -/
inductive Entry where
  | file (content : ByteArray)
  | folder

/-- Files and folders by their routes from the top, which has no entry itself, and the folder that
paths start from. -/
structure FileTree where
  entries : List (Route × Entry)
  start : Route

/-- Why a file cannot be read. -/
inductive ReadFault where
  | notFound
  | notFolder
  | isFolder
  | notText
  deriving Repr, DecidableEq

def ReadFault.message : ReadFault → String
  | .notFound => "No such file or directory (os error 2)"
  | .notFolder => "Not a directory (os error 20)"
  | .isFolder => "Is a directory (os error 21)"
  | .notText => "stream did not contain valid UTF-8"

/-- A source file that cannot be read, and why. -/
structure SourceFault where
  path : String
  cause : ReadFault
  deriving Repr, DecidableEq

def SourceFault.message (fault : SourceFault) : String :=
  "failed to read " ++ fault.path ++ ": " ++ fault.cause.message

namespace FileTree

def empty : FileTree := ⟨[],[]⟩

def entry? (tree : FileTree) : Route → Option Entry
  | [] => some .folder
  | route => tree.entries.lookup route

/-- Goes on from a route, which has to lead to a folder. The top is above itself. -/
def step (tree : FileTree) (route : Route) (part : List Char) : Except ReadFault Route :=
  match tree.entry? route with
  | none => .error .notFound
  | some (.file _) => .error .notFolder
  | some .folder =>
    if Path.isIdle part then .ok route
    else if part = ['.','.'] then .ok route.dropLast
    else .ok (route ++ [part])

/-- Where the first part of a path starts from: a slash at the beginning leads to the top. -/
def startOf (tree : FileTree) (part : List Char) : Route := if part.isEmpty then [] else tree.start

/-- The route that some parts lead along from another one, and what stands at its end. -/
def findFrom (tree : FileTree) (top : Route) (parts : List (List Char)) :
    Except ReadFault (Route × Entry) := do
  let route ← parts.foldlM tree.step top
  match tree.entry? route with
  | some e => .ok (route,e)
  | none => .error .notFound

/-- The route that a path leads along, and what stands at its end. -/
def find (tree : FileTree) (path : String) : Except ReadFault (Route × Entry) :=
  match Path.split path.toList with
  | [] => .error .notFound
  | [[]] => .error .notFound
  | part :: parts => tree.findFrom (tree.startOf part) (part :: parts)

def exists? (tree : FileTree) (path : String) : Bool := (tree.find path).isOk

def isFile (tree : FileTree) (path : String) : Bool :=
  match tree.find path with
  | .ok (_,.file _) => true
  | _ => false

def isFolder (tree : FileTree) (path : String) : Bool :=
  match tree.find path with
  | .ok (_,.folder) => true
  | _ => false

def read (tree : FileTree) (path : String) : Except ReadFault ByteArray :=
  match tree.find path with
  | .ok (_,.file content) => .ok content
  | .ok (_,.folder) => .error .isFolder
  | .error e => .error e

def read? (tree : FileTree) (path : String) : Option ByteArray := (tree.read path).toOption

/-- The source file at a path. -/
def source (tree : FileTree) (path : String) : Except SourceFault SourceFile :=
  match tree.read path with
  | .ok content => .ok ⟨path,content⟩
  | .error cause => .error ⟨path,cause⟩

/-- The text of some bytes. -/
def textOf (content : ByteArray) : Except ReadFault (List Char) :=
  match Text.decode content with
  | .ok text => .ok text
  | .error _ => .error .notText

def readText (tree : FileTree) (path : String) : Except ReadFault (List Char) :=
  match tree.read path with
  | .ok content => textOf content
  | .error e => .error e

/-- The content of the file at a route. -/
def content? (tree : FileTree) (route : Route) : Option ByteArray :=
  match tree.entry? route with
  | some (.file content) => some content
  | _ => none

/-- The routes of all files. -/
def fileRoutes (tree : FileTree) : List Route :=
  tree.entries.filterMap fun (route,e) =>
    match e with
    | .file _ => some route
    | .folder => none

/-- Puts an entry in the place of what stands at a route. -/
def put (tree : FileTree) (route : Route) (e : Entry) : FileTree :=
  { tree with entries := tree.entries.filter (·.1 != route) ++ [(route,e)] }

/-- Makes the folders on the way to a route, after the names in `before`. Files may not be in the way. -/
def makeFolders? (tree : FileTree) (before : Route) : Route → Option FileTree
  | [] => some tree
  | name :: names =>
    let route := before ++ [name]
    match tree.entry? route with
    | some (.file _) => none
    | some .folder => tree.makeFolders? route names
    | none => (tree.put route .folder).makeFolders? route names

/-- Makes a folder. -/
def makeFolder? (tree : FileTree) (route : Route) : Option FileTree := tree.makeFolders? [] route

/-- Writes a file, and makes the folders on the way to it. -/
def write? (tree : FileTree) (route : Route) (content : ByteArray) : Option FileTree :=
  match route with
  | [] => none
  | name :: names => do
    let tree ← tree.makeFolders? [] (name :: names).dropLast
    match tree.entry? route with
    | some .folder => none
    | _ => some (tree.put route (.file content))

/-- Removes what stands at a route, with all that is in it. The folder that paths start from stays. -/
def remove? (tree : FileTree) (route : Route) : Option FileTree :=
  match route with
  | [] => none
  | _ =>
    if route.isPrefixOf tree.start then none
    else (tree.entry? route).map fun _ =>
      { tree with entries := tree.entries.filter fun e => !route.isPrefixOf e.1 }

/-- The route that a path names without leaving the folder it starts from. -/
def routeOf? (tree : FileTree) (path : String) : Option Route :=
  (Path.components path).foldlM (fun route c =>
    match c with
    | .root => none
    | .up => none
    | .here => some route
    | .name s => some (route ++ [s])) tree.start

end FileTree
end ScriptLint
