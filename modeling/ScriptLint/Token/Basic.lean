import ScriptLint.Token.Keyword
import ScriptLint.Token.Punct

/-! Tokens: what they are, where they stand and whether a line break comes before them. -/
namespace ScriptLint

/-- The bytes from `start` up to, and without, `stop`. -/
structure Span where
  start : Nat
  stop : Nat
  deriving Repr, DecidableEq

/-- What a token is. Literals keep their text as written, quotes included. -/
inductive TokenKind where
  | reserved (word : Keyword)
  | name (text : String)
  | number (text : String)
  | string (text : String)
  | template (text : String)
  | punct (p : Punct)
  | endOfInput
  deriving Repr, DecidableEq

/-- The text a token was read from. -/
def TokenKind.text : TokenKind → String
  | .reserved w => w.text
  | .name s | .number s | .string s | .template s => s
  | .punct p => p.text
  | .endOfInput => ""

/-- A word is a reserved word or else a name. -/
def TokenKind.ofWord (s : String) : TokenKind :=
  match Keyword.ofText? s with
  | some w => .reserved w
  | none => .name s

structure Token where
  kind : TokenKind
  span : Span
  newlineBefore : Bool
  deriving Repr, DecidableEq

end ScriptLint
