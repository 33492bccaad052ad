/-! Reserved words: the words that are never the name of a variable. -/
namespace ScriptLint

inductive Keyword where
  | kwBreak | kwCase | kwCatch | kwClass | kwConst | kwContinue | kwDebugger | kwDefault
  | kwDelete | kwDo | kwElse | kwEnum | kwExport | kwExtends | kwFalse | kwFinally | kwFor
  | kwFunction | kwIf | kwImport | kwIn | kwInstanceof | kwNew | kwNull | kwReturn | kwSuper
  | kwSwitch | kwThis | kwThrow | kwTrue | kwTry | kwTypeof | kwVar | kwVoid | kwWhile | kwWith
  deriving Repr, DecidableEq

namespace Keyword

def text : Keyword → String
  | .kwBreak => "break"
  | .kwCase => "case"
  | .kwCatch => "catch"
  | .kwClass => "class"
  | .kwConst => "const"
  | .kwContinue => "continue"
  | .kwDebugger => "debugger"
  | .kwDefault => "default"
  | .kwDelete => "delete"
  | .kwDo => "do"
  | .kwElse => "else"
  | .kwEnum => "enum"
  | .kwExport => "export"
  | .kwExtends => "extends"
  | .kwFalse => "false"
  | .kwFinally => "finally"
  | .kwFor => "for"
  | .kwFunction => "function"
  | .kwIf => "if"
  | .kwImport => "import"
  | .kwIn => "in"
  | .kwInstanceof => "instanceof"
  | .kwNew => "new"
  | .kwNull => "null"
  | .kwReturn => "return"
  | .kwSuper => "super"
  | .kwSwitch => "switch"
  | .kwThis => "this"
  | .kwThrow => "throw"
  | .kwTrue => "true"
  | .kwTry => "try"
  | .kwTypeof => "typeof"
  | .kwVar => "var"
  | .kwVoid => "void"
  | .kwWhile => "while"
  | .kwWith => "with"

def all : List Keyword :=
  [.kwBreak,.kwCase,.kwCatch,.kwClass,.kwConst,.kwContinue,.kwDebugger,.kwDefault,
   .kwDelete,.kwDo,.kwElse,.kwEnum,.kwExport,.kwExtends,.kwFalse,.kwFinally,.kwFor,
   .kwFunction,.kwIf,.kwImport,.kwIn,.kwInstanceof,.kwNew,.kwNull,.kwReturn,.kwSuper,
   .kwSwitch,.kwThis,.kwThrow,.kwTrue,.kwTry,.kwTypeof,.kwVar,.kwVoid,.kwWhile,.kwWith]

def ofText? (s : String) : Option Keyword := all.find? (·.text == s)

theorem mem_all (k : Keyword) : k ∈ all := by cases k <;> decide

end Keyword
end ScriptLint
