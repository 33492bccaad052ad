import ScriptLint.Grammar.Statement
import ScriptLint.Token.Lexer

/-! Whole programs. The productions are unrolled once for every token, which is as often as they can
call each other. -/
namespace ScriptLint.Grammar

/-- The productions in terms of those they call further on. -/
def Productions.step (g : Productions) : Productions where
  expression := Grammar.expression g
  sequenceTail := Grammar.sequenceTail g
  assignment := Grammar.assignment g
  binary := Grammar.binary g
  binaryTail := Grammar.binaryTail g
  unary := Grammar.unary g
  accessTail := Grammar.accessTail g
  construct := Grammar.construct g
  constructTail := Grammar.constructTail g
  arguments := Grammar.arguments g
  elements := Grammar.elements g
  properties := Grammar.properties g
  parameters := Grammar.parameters g
  declarators := Grammar.declarators g
  statement := Grammar.statement g
  blockItems := Grammar.blockItems g
  caseItems := Grammar.caseItems g
  cases := Grammar.cases g
  programItems := Grammar.programItems g

/-- The productions for inputs of fewer than `n` tokens. -/
def productions : (n : Nat) → Productions
  | 0 => .none
  | n + 1 => (productions n).step

/-- The program that a list of tokens is; its node spans the whole text. -/
def program (g : Productions) : Parser Tree := do
  let body ← g.programItems
  let stop := (← current).span.stop
  modifyGet fun c =>
    (.node c.finished ⟨0,stop⟩ (.program body),{ c with finished := c.finished + 1 })

/-- The syntax tree of a list of tokens that starts with `first`. -/
def parseTokens (first : Token) (others : List Token) : Except SyntaxError Tree :=
  let cursor : Cursor := ⟨first,others,0,0⟩
  match program (productions (others.length + 1)) ⟨0,false⟩ cursor with
  | .ok (tree,_) => .ok tree
  | .error halt => .error halt.error

end ScriptLint.Grammar

namespace ScriptLint

/-- The syntax tree of a text. All of it is read into tokens before any of them is parsed. -/
def parseText (cs : List Char) : Except SyntaxError SyntaxTree :=
  match Token.scan cs with
  | .error e => .error e
  | .ok [] => .ok .empty
  | .ok (first :: others) =>
    match Grammar.parseTokens first others with
    | .error e => .error e
    | .ok tree => .ok ⟨some tree⟩

/-- The syntax tree of a source file. -/
def parseSource (content : ByteArray) : Except SyntaxError SyntaxTree :=
  match Text.decode content with
  | .error n => .error ⟨.notUtf8,n⟩
  | .ok cs => parseText cs

end ScriptLint
