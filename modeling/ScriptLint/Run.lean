import ScriptLint.Config.Loading
import ScriptLint.Discovery

/-! A whole run: from options and files to a report. -/
namespace ScriptLint

/-- What a run prints and its exit code. -/
structure Outcome where
  output : String
  exitCode : Nat

/-- Why a run comes to nothing. -/
inductive RunFault where
  | config (fault : ConfigFault)
  | failLevel (text : String)
  | stdin (fault : ReadFault)
  | discovery (fault : DiscoveryFault)
  | pattern (fault : PatternFault)
  deriving Repr, DecidableEq

def RunFault.message : RunFault → String
  | .config fault => fault.message
  | .failLevel text => "invalid --fail-level: " ++ Severity.unknownMessage text
  | .stdin fault => "failed to read stdin: " ++ fault.message
  | .discovery fault => fault.message
  | .pattern fault => fault.message

namespace Run

/-- Lines of output. -/
def printed (lines : List String) : String := String.join (lines.map (· ++ "\n"))

/-- The folder next to which the configuration is looked for: that of the first path. -/
def target? (tree : FileTree) (options : Options) : Option String :=
  options.paths.head?.map fun p => if tree.isFile p then (Path.parent? p).getD p else p

/-- The outcome of a run that found offenses. -/
def report (options : Options) (level : Severity) (result : LintResult) : Outcome :=
  ⟨options.format.report result.diagnostics result.fileCount,exitCode result.diagnostics level⟩

/-- Inspects the standard input under a name. -/
def inspectInput (config : Config) (registry : Registry) (options : Options) (level : Severity)
    (path : String) (stdin : ByteArray) : Except RunFault Outcome :=
  match FileTree.textOf stdin with
  | .error e => .error (.stdin e)
  | .ok _ =>
    match lintSource config registry options ⟨path,stdin⟩ with
    | .error e => .error (.pattern e)
    | .ok result => .ok (report options level result)

/-- Lists or inspects the files that the paths stand for. -/
def inspectFiles (tree : FileTree) (config : Config) (registry : Registry) (options : Options)
    (level : Severity) : Except RunFault Outcome :=
  match tree.discover config options.paths with
  | .error e => .error (.discovery e)
  | .ok targets =>
    if options.listFiles then .ok ⟨printed targets.files,0⟩
    else
      match lintFiles config registry options targets tree.read? with
      | .error e => .error (.pattern e)
      | .ok result => .ok (report options level result)

end Run

/-- Does what the options ask for. -/
def run (tree : FileTree) (stdin : ByteArray) (options : Options) : Except RunFault Outcome :=
  let registry := Registry.default
  match Config.load tree options.config? (Run.target? tree options) with
  | .error e => .error (.config e)
  | .ok config =>
    if options.listCops then
      .ok ⟨Run.printed (registry.names.mergeSort fun a b => (compare a b).isLE),0⟩
    else
      match Severity.ofText? options.failLevel with
      | none => .error (.failLevel options.failLevel)
      | some level =>
        match options.stdin? with
        | some path => Run.inspectInput config registry options level path stdin
        | none => Run.inspectFiles tree config registry options level

end ScriptLint
