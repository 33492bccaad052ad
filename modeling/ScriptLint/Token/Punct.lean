/-! Punctuators. The list of all of them has the longer ones first, so that the first one that
begins a text is the longest one that does. -/
namespace ScriptLint

inductive Punct where
  | ushrAssign | ellipsis | strictEq | strictNotEq | powAssign | shlAssign | shrAssign | ushr
  | andAssign | orAssign | nullishAssign | arrow | eq | notEq | lessEq | greaterEq | and | or
  | nullish | optionalDot | increment | decrement | addAssign | subAssign | mulAssign | divAssign
  | remAssign | bitAndAssign | bitOrAssign | bitXorAssign | pow | shl | shr | openBrace
  | closeBrace | openParen | closeParen | openBracket | closeBracket | semicolon | comma | less
  | greater | plus | minus | star | slash | percent | ampersand | bar | caret | bang | tilde
  | question | colon | assign | dot
  deriving Repr, DecidableEq

namespace Punct

def text : Punct → String
  | .ushrAssign => ">>>="
  | .ellipsis => "..."
  | .strictEq => "==="
  | .strictNotEq => "!=="
  | .powAssign => "**="
  | .shlAssign => "<<="
  | .shrAssign => ">>="
  | .ushr => ">>>"
  | .andAssign => "&&="
  | .orAssign => "||="
  | .nullishAssign => "??="
  | .arrow => "=>"
  | .eq => "=="
  | .notEq => "!="
  | .lessEq => "<="
  | .greaterEq => ">="
  | .and => "&&"
  | .or => "||"
  | .nullish => "??"
  | .optionalDot => "?."
  | .increment => "++"
  | .decrement => "--"
  | .addAssign => "+="
  | .subAssign => "-="
  | .mulAssign => "*="
  | .divAssign => "/="
  | .remAssign => "%="
  | .bitAndAssign => "&="
  | .bitOrAssign => "|="
  | .bitXorAssign => "^="
  | .pow => "**"
  | .shl => "<<"
  | .shr => ">>"
  | .openBrace => "\x7b"
  | .closeBrace => "\x7d"
  | .openParen => "("
  | .closeParen => ")"
  | .openBracket => "["
  | .closeBracket => "]"
  | .semicolon => ";"
  | .comma => ","
  | .less => "<"
  | .greater => ">"
  | .plus => "+"
  | .minus => "-"
  | .star => "*"
  | .slash => "/"
  | .percent => "%"
  | .ampersand => "&"
  | .bar => "|"
  | .caret => "^"
  | .bang => "!"
  | .tilde => "~"
  | .question => "?"
  | .colon => ":"
  | .assign => "="
  | .dot => "."

/-- Every punctuator, longer ones first. -/
def all : List Punct :=
  [.ushrAssign,.ellipsis,.strictEq,.strictNotEq,.powAssign,.shlAssign,.shrAssign,.ushr,
   .andAssign,.orAssign,.nullishAssign,.arrow,.eq,.notEq,.lessEq,.greaterEq,.and,.or,
   .nullish,.optionalDot,.increment,.decrement,.addAssign,.subAssign,.mulAssign,.divAssign,
   .remAssign,.bitAndAssign,.bitOrAssign,.bitXorAssign,.pow,.shl,.shr,.openBrace,
   .closeBrace,.openParen,.closeParen,.openBracket,.closeBracket,.semicolon,.comma,.less,
   .greater,.plus,.minus,.star,.slash,.percent,.ampersand,.bar,.caret,.bang,.tilde,
   .question,.colon,.assign,.dot]

/-- The longest punctuator that begins a text. -/
def leading? (cs : List Char) : Option Punct :=
  all.find? fun p => p.text.toList.isPrefixOf cs

def ofText? (s : String) : Option Punct := all.find? (·.text == s)

theorem mem_all (p : Punct) : p ∈ all := by cases p <;> decide

/-- An opening parenthesis, bracket or brace. -/
def isOpening : Punct → Bool
  | .openParen | .openBracket | .openBrace => true
  | _ => false

/-- A closing parenthesis, bracket or brace. -/
def isClosing : Punct → Bool
  | .closeParen | .closeBracket | .closeBrace => true
  | _ => false

end Punct
end ScriptLint
