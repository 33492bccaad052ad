import ScriptLint.Severity
import ScriptLint.Yaml.Value

/-! The configuration of cops. -/
namespace ScriptLint

/-- What is configured for one cop. -/
structure CopConfig where
  enabled : Bool := true
  severity? : Option Severity := none
  /-- Patterns of the paths it looks at; all paths if there are none. -/
  included : List String := []
  /-- Patterns of the paths it does not look at. -/
  excluded : List String := []
  deriving DecidableEq

/-- A configuration: that of the cops it names, patterns of files that no cop looks at, and the
folder that it applies to. -/
structure Config where
  cops : List (String × CopConfig) := []
  excluded : List String := []
  dir? : Option String := none

namespace Config

open Yaml (Value)

/-- The texts of a list. What is no text is left out, and what is no list has none. -/
def texts? (v : Value) : Option (List String) := v.asItems?.map (·.filterMap Value.asString?)

/-- Takes one entry of the configuration of a cop. Entries that say nothing usable leave it as it is. -/
def copEntry (c : CopConfig) (key : String) (v : Value) : CopConfig :=
  match key with
  | "Enabled" => { c with enabled := v.asBool?.getD c.enabled }
  | "Severity" => { c with severity? := (v.asString?.bind Severity.ofText?).or c.severity? }
  | "Exclude" => { c with excluded := (texts? v).getD c.excluded }
  | "Include" => { c with included := (texts? v).getD c.included }
  | _ => c

/-- The configuration of a cop. A value with a tag configures nothing. -/
def copConfig : Value → CopConfig
  | .mapping entries =>
    entries.foldl (fun c (k,v) => (k.asString?.map fun key => copEntry c key v).getD c) {}
  | _ => {}

/-- Gives a cop a configuration in place of the one it has. -/
def setCop (config : Config) (name : String) (c : CopConfig) : Config :=
  { config with cops := config.cops.filter (·.1 != name) ++ [(name,c)] }

/-- Takes one entry of a configuration. Names of cops have a slash. -/
def entry (config : Config) (key : String) (v : Value) : Config :=
  if key == "AllCops" then
    match (v.asEntries?.bind fun es => Value.entry? es "Exclude").bind texts? with
    | some patterns => { config with excluded := patterns }
    | none => config
  else if key.toList.contains '/' then config.setCop key (copConfig v)
  else config

/-- The configuration that a value stands for. Anything but a mapping configures nothing. -/
def ofValue : Value → Config
  | .mapping entries =>
    entries.foldl (fun config (k,v) => (k.asString?.map fun key => config.entry key v).getD config) {}
  | _ => {}

/-- The configuration that a text stands for, if it can be read. -/
def parse? (text : String) : Option Config := (Value.parse? text.toList).map ofValue

def cop? (config : Config) (name : String) : Option CopConfig := config.cops.lookup name

def cop (config : Config) (name : String) : CopConfig := (config.cop? name).getD {}

/-- Whether a cop is enabled. A cop that is not named goes by its own default. -/
def enables (config : Config) (name : String) (byDefault : Bool) : Bool :=
  match config.cop? name with
  | some c => c.enabled
  | none => byDefault

end Config
end ScriptLint
