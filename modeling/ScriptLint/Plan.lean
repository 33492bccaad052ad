import ScriptLint.Config.Basic
import ScriptLint.Cop.Registry
import ScriptLint.Cop.Walk
import ScriptLint.Glob.Matching
import ScriptLint.Glob.Reading
import ScriptLint.Path

/-! Which cops look at which paths. This is settled before any file is read. -/
namespace ScriptLint

/-- A cop with what is settled about it. -/
structure CopPlan where
  cop : Cop
  config : CopConfig
  enabled : Bool
  included : List Glob
  excluded : List Glob

/-- All cops with what is settled about them, and the paths that none looks at. -/
structure Plan where
  cops : List CopPlan
  excluded : List Glob
  /-- The folder that patterns also start from. -/
  dir? : Option String

/-- The two lists of patterns that a cop has. -/
inductive PatternList where
  | included | excluded
  deriving Repr, DecidableEq

def PatternList.key : PatternList → String
  | .included => "Include"
  | .excluded => "Exclude"

/-- A pattern that cannot be read: the cop it is configured for, if it is for one, the list it is in,
its text and what is wrong with it. -/
structure PatternFault where
  cop? : Option String
  list : PatternList
  pattern : String
  fault : GlobFault
  deriving Repr, DecidableEq

def PatternFault.message (f : PatternFault) : String :=
  f.cop?.getD "AllCops" ++ ": bad " ++ f.list.key ++ ": invalid glob: " ++ f.pattern ++ ": " ++
    f.fault.message f.pattern

/-- Reads a list of patterns. The first one that cannot be read counts. -/
def readPatterns (cop? : Option String) (list : PatternList) (patterns : List String) :
    Except PatternFault (List Glob) :=
  patterns.mapM fun p =>
    match Glob.parse .path p with
    | .ok g => .ok g
    | .error e => .error ⟨cop?,list,p,e⟩

/-- Whether a cop is to run. If cops are asked for by name, the configuration does not count. -/
def Config.selects (config : Config) (only except : List String) (cop : Cop) : Bool :=
  (if only.isEmpty then config.enables cop.name cop.enabledByDefault else only.contains cop.name) &&
    !except.contains cop.name

/-- Settles everything about one cop. -/
def Config.planCop (config : Config) (only except : List String) (cop : Cop) :
    Except PatternFault CopPlan := do
  let c := config.cop cop.name
  let included ← readPatterns (some cop.name) .included c.included
  let excluded ← readPatterns (some cop.name) .excluded c.excluded
  return ⟨cop,c,config.selects only except cop,included,excluded⟩

/-- Settles everything about the cops of a registry. -/
def Config.plan (config : Config) (registry : Registry) (only except : List String) :
    Except PatternFault Plan := do
  let cops ← registry.cops.mapM (config.planCop only except)
  let excluded ← readPatterns none .excluded config.excluded
  return ⟨cops,excluded,config.dir?⟩

/-- Whether one of some patterns matches one of some paths. -/
def matchesAny (globs : List Glob) (paths : List String) : Bool :=
  paths.any fun p => globs.any (·.matchesPath p)

namespace Plan

/-- The texts of a path that patterns are matched with: the path, and what is left of it below the
folder of the configuration. -/
def candidates (plan : Plan) (path : String) : List String :=
  let path := Path.undotted path
  path :: ((plan.dir?.bind fun dir => Path.relativeTo? (Path.undotted dir) path)).toList

/-- Whether a path is excluded from a cop. -/
def excludesFrom (plan : Plan) (c : CopPlan) (path : String) : Bool :=
  matchesAny c.excluded (plan.candidates path)

/-- Whether a cop looks at a path. -/
def runs (plan : Plan) (c : CopPlan) (path : String) : Bool :=
  c.enabled && (c.included.isEmpty || matchesAny c.included (plan.candidates path)) &&
    !plan.excludesFrom c path

/-- Whether a path is excluded from all cops. -/
def excludes (plan : Plan) (path : String) : Bool := matchesAny plan.excluded (plan.candidates path)

def anyEnabled (plan : Plan) : Bool := plan.cops.any (·.enabled)

/-- The cops that look at a path. -/
def active (plan : Plan) (path : String) : List ActiveCop :=
  (plan.cops.filter fun c => plan.runs c path).map fun c => ⟨c.cop,c.config⟩

end Plan
end ScriptLint
