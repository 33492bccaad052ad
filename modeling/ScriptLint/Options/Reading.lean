import ScriptLint.Options.Basic

/-! Options from the arguments of a command. Arguments are read from left to right. What an option or
a path is given takes effect only with the next one, or at the end. -/
namespace ScriptLint.Options

/-- What waits to take effect. -/
inductive Waiting where
  | nothing
  /-- A setting, with its value once that is read. -/
  | setting (s : Setting) (value? : Option String)
  | paths (ps : List String)

/-- How far the arguments are read. -/
structure Draft where
  options : Options
  /-- The paths so far. -/
  paths : List String
  switches : List Switch
  settings : List Setting
  waiting : Waiting
  /-- Whether all that follows are paths. -/
  onlyPaths : Bool

namespace Draft

def start : Draft := ⟨{},[],[],[],.nothing,false⟩

/-- Gives a setting a value. -/
def assign (d : Draft) (s : Setting) (v : String) : Except UsageFault Draft :=
  if d.settings.contains s && !s.accumulates then .error .repeated
  else
    match d.options.assign s v with
    | .error e => .error e
    | .ok o => .ok { d with options := o, settings := s :: d.settings }

/-- Lets take effect what waits to. -/
def settle (d : Draft) : Except UsageFault Draft :=
  match d.waiting with
  | .nothing => .ok d
  | .setting _ none => .error .invalidValue
  | .setting s (some v) => { d with waiting := .nothing }.assign s v
  | .paths ps =>
    if ps.any String.isEmpty then .error .invalidValue
    else .ok { d with waiting := .nothing, paths := d.paths ++ ps }

def turnOn (d : Draft) (s : Switch) : Except UsageFault Draft := do
  let d ← d.settle
  if d.switches.contains s then .error .repeated
  else .ok { d with options := d.options.turnOn s, switches := s :: d.switches }

/-- Takes a setting, with a value if one is attached. -/
def set (d : Draft) (s : Setting) (value? : Option String) : Except UsageFault Draft := do
  let d ← d.settle
  match value? with
  | some v => d.assign s v
  | none => .ok { d with waiting := .setting s none }

/-- Answers with something else than options. -/
def refuse (d : Draft) (fault : UsageFault) : Except UsageFault Draft := do
  let _ ← d.settle
  .error fault

def path (d : Draft) (p : String) : Except UsageFault Draft :=
  match d.waiting with
  | .paths ps => .ok { d with waiting := .paths (ps ++ [p]) }
  | _ => do
    let d ← d.settle
    .ok { d with waiting := .paths [p] }

/-- Takes an argument that begins with two dashes, after which `name` stands. -/
def long (d : Draft) (name : String) (value? : Option String) : Except UsageFault Draft :=
  match longKeys.lookup name with
  | none => .error .unknownArgument
  | some (.setting s) => d.set s value?
  | some key =>
    if value?.isSome then .error .unwantedValue
    else
      match key with
      | .switch s => d.turnOn s
      | .version => d.refuse .version
      | _ => d.refuse .help

/-- What is attached to a letter: the characters after it, without an equals sign at their
beginning. -/
def attached? : List Char → Option String
  | [] => none
  | '=' :: cs => some (String.ofList cs)
  | cs => some (String.ofList cs)

/-- Takes the letters after a single dash. -/
def short (d : Draft) : List Char → Except UsageFault Draft
  | [] => .ok d
  | c :: cs =>
    match shortKeys.lookup c with
    | none => .error .unknownArgument
    | some (.setting s) => d.set s (attached? cs)
    | some (.switch s) =>
      match d.turnOn s with
      | .error e => .error e
      | .ok d => d.short cs
    | some .help => d.refuse .help
    | some .version => d.refuse .version

/-- Takes an argument that is no option: the value that a setting waits for, or a path. -/
def plain (d : Draft) (a : String) : Except UsageFault Draft :=
  match d.waiting with
  | .setting s none => .ok { d with waiting := .setting s (some a) }
  | _ => d.path a

def argument (d : Draft) (a : String) : Except UsageFault Draft :=
  if d.onlyPaths then d.path a
  else
    match a.toList with
    | ['-','-'] => .ok { d with onlyPaths := true }
    | '-' :: '-' :: cs =>
      let name := cs.takeWhile (· ≠ '=')
      d.long (String.ofList name) (((cs.drop name.length).tail?).map String.ofList)
    | ['-'] => d.plain a
    | '-' :: cs => d.short cs
    | _ => d.plain a

end Draft

/-- The options that some arguments ask for. -/
def read (arguments : List String) : Except UsageFault Options := do
  let d ← arguments.foldlM Draft.argument .start
  let d ← d.settle
  return if d.paths.isEmpty then d.options else { d.options with paths := d.paths }

end ScriptLint.Options
