import ScriptLint.Report

/-! What a run is asked to do. -/
namespace ScriptLint

structure Options where
  /-- Files and folders to inspect. -/
  paths : List String := ["."]
  /-- The file with the configuration. -/
  config? : Option String := none
  format : ReportFormat := .text
  /-- The cops to run; all that are enabled if there are none. -/
  only : List String := []
  /-- The cops not to run. -/
  except : List String := []
  debug : Bool := false
  /-- Whether to list the cops instead. -/
  listCops : Bool := false
  /-- Whether to list the files instead. -/
  listFiles : Bool := false
  /-- The path under which to inspect the standard input instead. -/
  stdin? : Option String := none
  /-- The least severity that makes a run fail. -/
  failLevel : String := "convention"
  /-- Whether files that are named are excluded like others. -/
  forceExclusion : Bool := false

namespace Options

/-- Options that are on or off. -/
inductive Switch where
  | debug | listCops | listFiles | forceExclusion
  deriving Repr, DecidableEq

/-- Options that take a value. -/
inductive Setting where
  | config | format | only | except | stdin | failLevel
  deriving Repr, DecidableEq

/-- What can be asked for by name. -/
inductive Key where
  | switch (s : Switch)
  | setting (s : Setting)
  | help
  | version
  deriving Repr, DecidableEq

/-- Why arguments give no options. Help and the version are asked for instead of a run. -/
inductive UsageFault where
  | invalidValue
  | unknownArgument
  /-- An option that may be given once was given twice. -/
  | repeated
  /-- A switch was given a value. -/
  | unwantedValue
  | help
  | version
  deriving Repr, DecidableEq

def longKeys : List (String × Key) :=
  [("config",.setting .config),("format",.setting .format),("only",.setting .only),
    ("except",.setting .except),("debug",.switch .debug),("list-cops",.switch .listCops),
    ("list-target-files",.switch .listFiles),("stdin",.setting .stdin),
    ("fail-level",.setting .failLevel),("force-exclusion",.switch .forceExclusion),
    ("help",.help),("version",.version)]

def shortKeys : List (Char × Key) :=
  [('c',.setting .config),('f',.setting .format),('L',.switch .listFiles),('h',.help),
    ('V',.version)]

/-- Whether a setting may be given more than once. -/
def Setting.accumulates : Setting → Bool
  | .only => true
  | .except => true
  | _ => false

def turnOn (o : Options) : Switch → Options
  | .debug => { o with debug := true }
  | .listCops => { o with listCops := true }
  | .listFiles => { o with listFiles := true }
  | .forceExclusion => { o with forceExclusion := true }

/-- Takes the value of a setting. Paths may not be empty, and lists are divided by commas. -/
def assign (o : Options) (s : Setting) (v : String) : Except UsageFault Options :=
  match s with
  | .config => if v.isEmpty then .error .invalidValue else .ok { o with config? := some v }
  | .stdin => if v.isEmpty then .error .invalidValue else .ok { o with stdin? := some v }
  | .format =>
    match ReportFormat.ofText? v with
    | some f => .ok { o with format := f }
    | none => .error .invalidValue
  | .only => .ok { o with only := o.only ++ v.splitOn "," }
  | .except => .ok { o with except := o.except ++ v.splitOn "," }
  | .failLevel => .ok { o with failLevel := v }

end Options
end ScriptLint
