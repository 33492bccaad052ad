import ScriptLint.Config.Basic
import ScriptLint.FileTree

/-! Finding and reading the configuration of a run. -/
namespace ScriptLint

/-- Why a configuration cannot be had. -/
inductive ConfigFault where
  | missing (path : String)
  | unreadable (path : String) (cause : ReadFault)
  | malformed (path : String)
  deriving Repr, DecidableEq

/-- What is said of a text that is no document. -/
def Config.malformedMessage : String := "<yaml error>"

def ConfigFault.message : ConfigFault → String
  | .missing path => "config file not found: " ++ path
  | .unreadable path cause => "failed to read config " ++ path ++ ": " ++ cause.message
  | .malformed path => "failed to parse " ++ path ++ ": " ++ Config.malformedMessage

namespace Config

/-- The name under which a configuration is looked for. -/
def fileName : String := ".jscop.yml"

/-- Reads the configuration in a file. It applies to the folder that the file is in. -/
def loadFile (tree : FileTree) (path : String) : Except ConfigFault Config :=
  match tree.readText path with
  | .error e => .error (.unreadable path e)
  | .ok text =>
    match parse? (String.ofList text) with
    | none => .error (.malformed path)
    | some config =>
      .ok { config with dir? := (Path.parent? path).map fun d => if d.isEmpty then "." else d }

/-- Reads the configuration in a file that is named, or else in the first file found, next to what is
inspected or where the run starts. If there is none, nothing is configured. -/
def load (tree : FileTree) (path? target? : Option String) : Except ConfigFault Config :=
  match path? with
  | some path => if tree.exists? path then loadFile tree path else .error (.missing path)
  | none =>
    let places := (target?.map fun dir => Path.join dir fileName).toList ++ [fileName]
    match places.find? tree.isFile with
    | some path => loadFile tree path
    | none => .ok {}

end Config
end ScriptLint
