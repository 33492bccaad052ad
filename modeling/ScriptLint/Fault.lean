import ScriptLint.Token.Basic

/-! Why a source text is refused, and where. -/
namespace ScriptLint

inductive Fault where
  | notUtf8
  | unterminatedComment
  | unterminatedString
  | unterminatedTemplate
  | escapedIdentifier
  | unexpectedCharacter (c : Char)
  | unexpected (found : TokenKind)
  | expected (text : String) (found : TokenKind)
  | expectedIdentifier (found : TokenKind)
  | expectedPropertyName (found : TokenKind)
  | nestingTooDeep
  | destructuring
  | unsupportedDeclaration (word : Keyword)
  | unsupportedExpression (word : Keyword)
  | newTarget
  | regularExpression
  | unterminatedBlock
  | unterminatedSwitch
  | repeatedDefault
  | tryAlone
  | throwLineBreak
  | returnOutsideFunction
  | loopTarget
  | assignmentTarget
  deriving Repr, DecidableEq

/-- How a message names the token it stumbled over. -/
def TokenKind.describe : TokenKind → String
  | .endOfInput => "end of input"
  | kind => "`" ++ kind.text ++ "`"

namespace Fault

def message : Fault → String
  | .notUtf8 => "source is not valid UTF-8"
  | .unterminatedComment => "unterminated comment"
  | .unterminatedString => "unterminated string literal"
  | .unterminatedTemplate => "unterminated template literal"
  | .escapedIdentifier => "unicode escapes in identifiers are not supported"
  | .unexpectedCharacter c => "unexpected character `" ++ c.toString ++ "`"
  | .unexpected found => "unexpected " ++ found.describe
  | .expected text found => "expected `" ++ text ++ "`, found " ++ found.describe
  | .expectedIdentifier found => "expected identifier, found " ++ found.describe
  | .expectedPropertyName found => "expected property name, found " ++ found.describe
  | .nestingTooDeep => "nesting too deep"
  | .destructuring => "destructuring patterns are not supported"
  | .unsupportedDeclaration word => "`" ++ word.text ++ "` declarations are not supported"
  | .unsupportedExpression word => "`" ++ word.text ++ "` is not supported"
  | .newTarget => "`new.target` is not supported"
  | .regularExpression => "regular expression literals are not supported"
  | .unterminatedBlock => "unterminated block"
  | .unterminatedSwitch => "unterminated `switch`"
  | .repeatedDefault => "multiple `default` clauses in `switch`"
  | .tryAlone => "missing `catch` or `finally` after `try`"
  | .throwLineBreak => "line break after `throw`"
  | .returnOutsideFunction => "`return` outside of function"
  | .loopTarget => "invalid left-hand side in `for` loop"
  | .assignmentTarget => "invalid assignment target"

end Fault

/-- A refusal: its cause and the byte it is reported at. -/
structure SyntaxError where
  fault : Fault
  offset : Nat
  deriving Repr, DecidableEq

/-- The message with the place it points at. -/
def SyntaxError.describe (e : SyntaxError) : String :=
  e.fault.message ++ " (at byte " ++ toString e.offset ++ ")"

end ScriptLint
