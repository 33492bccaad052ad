import ScriptLint.Grammar.Program
import ScriptLint.Options.Basic
import ScriptLint.Plan

/-! Inspecting files. -/
namespace ScriptLint

/-- The offenses found, in the order of reports, and the number of files. -/
structure LintResult where
  diagnostics : List Diagnostic
  fileCount : Nat

/-- The offense of a file that cannot be parsed, if the cop for it looks at the file. -/
def Plan.syntaxOffenses (plan : Plan) (file : SourceFile) (e : SyntaxError) : List Diagnostic :=
  match plan.cops.find? (·.cop.name == syntaxCop.name) with
  | none => []
  | some c =>
    if plan.runs c file.path then [(syntaxOffense file e).withSeverity c.config.severity?] else []

/-- The offenses of one file as they are found. No cop looks at the nodes of a file that cannot be
parsed. -/
def Plan.inspect (plan : Plan) (file : SourceFile) : List Diagnostic :=
  match parseSource file.content with
  | .error e => plan.syntaxOffenses file e
  | .ok tree => (FileContext.ofTree file tree).walk (plan.active file.path)

/-- Inspects one file, wherever it is. -/
def lintSource (config : Config) (registry : Registry) (options : Options) (file : SourceFile) :
    Except PatternFault LintResult := do
  let plan ← config.plan registry options.only options.except
  return ⟨Diagnostic.sort (plan.inspect file),1⟩

/-- Files to inspect, and those among them that were named. -/
structure Targets where
  files : List String
  explicit : List String

/-- Whether a file is left out. A file that was named is so only by force. -/
def Plan.omits (plan : Plan) (options : Options) (targets : Targets) (path : String) : Bool :=
  plan.excludes path && (options.forceExclusion || !targets.explicit.any (Path.same path))

/-- The offenses of one of several files. A file that cannot be read has none. -/
def Plan.inspectTarget (plan : Plan) (options : Options) (targets : Targets)
    (read? : String → Option ByteArray) (path : String) : List Diagnostic :=
  if plan.omits options targets path then []
  else
    match read? path with
    | none => []
    | some content => plan.inspect ⟨path,content⟩

/-- Inspects several files. All of them count, also those that are left out or cannot be read. -/
def lintFiles (config : Config) (registry : Registry) (options : Options) (targets : Targets)
    (read? : String → Option ByteArray) : Except PatternFault LintResult := do
  let plan ← config.plan registry options.only options.except
  let found := targets.files.flatMap (plan.inspectTarget options targets read?)
  return ⟨Diagnostic.sort found,targets.files.length⟩

end ScriptLint
