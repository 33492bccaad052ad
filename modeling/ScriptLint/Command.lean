import ScriptLint.Options.Reading
import ScriptLint.Run

/-! The command: what it prints and the code it exits with, given its arguments, the standard input
and the files and folders around it. -/
namespace ScriptLint

/-- What a command leaves behind. -/
structure Response where
  output : String
  complaint : String
  exitCode : Nat

namespace Command

/-- What is said of arguments that give no options. -/
def usageMessage : Options.UsageFault → String
  | .invalidValue => "error: invalid value"
  | .unknownArgument => "error: unexpected argument"
  | .repeated => "error: the argument cannot be used multiple times"
  | .unwantedValue => "error: unexpected value"
  | .help => "Usage: jscop [OPTIONS] [PATHS]..."
  | .version => "jscop"

/-- Does what the arguments ask for. -/
def execute (tree : FileTree) (stdin : ByteArray) (arguments : List String) : Response :=
  match Options.read arguments with
  | .error fault =>
    if fault == .help || fault == .version then ⟨usageMessage fault ++ "\n","",0⟩
    else ⟨"",usageMessage fault ++ "\n",2⟩
  | .ok options =>
    match run tree stdin options with
    | .ok outcome => ⟨outcome.output,"",outcome.exitCode⟩
    | .error fault => ⟨"","error: " ++ fault.message ++ "\n",3⟩

end Command
end ScriptLint
