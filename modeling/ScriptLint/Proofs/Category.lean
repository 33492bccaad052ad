import Mathlib
import ScriptLint.Grammar.Statement
import ScriptLint.Predecessor
import ScriptLint.Proofs.Strain

/-! The syntactic categories of nodes, and which of them may stand where below a node. Everything is
said of one node and those directly below it; a tree is grammatical when all its nodes are. -/
namespace ScriptLint

/-- What a node can be that others ask for by what it is. -/
inductive NodeKind where
  | program | block | variableDeclaration | declarator | switch | case | handler | other
  deriving DecidableEq

@[simp]
def Shape.kind {α : Type} : Shape α → NodeKind
  | .program _ => .program
  | .block _ => .block
  | .variableDeclaration .. => .variableDeclaration
  | .declarator .. => .declarator
  | .switchStatement .. => .switch
  | .switchCase .. => .case
  | .catchClause .. => .handler
  | _ => .other

/-- The shapes of a kind, by their parts. -/
def NodeKind.Covers : NodeKind → Shape Tree → Prop
  | .program, s => ∃ body, s = .program body
  | .block, s => ∃ body, s = .block body
  | .variableDeclaration, s => ∃ kind declarators, s = .variableDeclaration kind declarators
  | .declarator, s => ∃ id value, s = .declarator id value
  | .switch, s => ∃ discriminant cases, s = .switchStatement discriminant cases
  | .case, s => ∃ test consequent, s = .switchCase test consequent
  | .handler, s => ∃ param body, s = .catchClause param body
  | .other, _ => True

namespace Tree

@[simp]
def isKind (k : NodeKind) (t : Tree) : Bool := t.shape.kind == k

lemma isKind_of_shape {t : Tree} {s : Shape Tree} (h : t.shape = s) (k : NodeKind) :
    t.isKind k = (s.kind == k) := by
  rw [isKind,h]

/-- A node of a kind has the parts of that kind. -/
theorem covers_of_isKind {k : NodeKind} {t : Tree} (h : t.isKind k) : k.Covers t.shape := by
  obtain rfl := beq_iff_eq.mp h
  cases t.shape with
  | program | block => exact ⟨_,rfl⟩
  | variableDeclaration | declarator | switchStatement | switchCase | catchClause =>
    exact ⟨_,_,rfl⟩
  | _ => trivial

/-- An identifier that is none of the reserved words. -/
def isName (t : Tree) : Bool :=
  match t.shape with
  | .identifier s => (Keyword.ofText? s).isNone
  | _ => false

def isExpression (t : Tree) : Bool :=
  match t.shape with
  | .identifier s => (Keyword.ofText? s).isNone
  | .function kind .. => kind != .declaration
  | .literal .. | .this | .array _ | .object _ | .assignment .. | .binary .. | .unary ..
  | .update .. | .conditional .. | .call .. | .construct .. | .member .. | .sequence _ => true
  | _ => false

def isStatement (t : Tree) : Bool :=
  match t.shape with
  | .function kind .. => kind == .declaration
  | .block _ | .variableDeclaration .. | .expressionStatement _ | .returnStatement _
  | .ifStatement .. | .switchStatement .. | .forLoop .. | .forIn .. | .forOf .. | .whileLoop ..
  | .doWhile .. | .tryStatement .. | .labeled .. | .withStatement .. | .breakStatement _
  | .continueStatement _ | .throwStatement _ | .empty | .debugger => true
  | _ => false

def isProgram (t : Tree) : Bool := t.isKind .program

def isBlock (t : Tree) : Bool := t.isKind .block

def isVariableDeclaration (t : Tree) : Bool := t.isKind .variableDeclaration

def isDeclarator (t : Tree) : Bool := t.isKind .declarator

def isCase (t : Tree) : Bool := t.isKind .case

def isHandler (t : Tree) : Bool := t.isKind .handler

def isSwitch (t : Tree) : Bool := t.isKind .switch

/-- A case without a test. -/
def isDefault (t : Tree) : Bool :=
  match t.shape with
  | .switchCase none _ => true
  | _ => false

def isParameter (t : Tree) : Bool :=
  match t.shape with
  | .identifier s => (Keyword.ofText? s).isNone
  | .defaultParam .. | .restParam _ => true
  | _ => false

/-- An item of a call or of an array. -/
def isItem (t : Tree) : Bool :=
  match t.shape with
  | .spread _ => true
  | _ => t.isExpression

def isFunctionOf (kind : FunctionKind) (t : Tree) : Bool :=
  match t.shape with
  | .function k .. => k == kind
  | _ => false

theorem isStatement_of_isFunctionOf {t : Tree} (h : t.isFunctionOf .declaration) :
    t.isStatement := by
  obtain ⟨i,span,shape⟩ := t
  cases shape with
  | function => exact h
  | _ => contradiction

theorem isExpression_of_isFunctionOf {kind : FunctionKind} {t : Tree} (h : t.isFunctionOf kind)
    (hk : kind ≠ .declaration) : t.isExpression := by
  obtain ⟨i,span,shape⟩ := t
  cases shape with
  | function =>
    obtain rfl := beq_iff_eq.mp h
    exact bne_iff_ne.mpr hk
  | _ => contradiction

theorem isParameter_of_isName {t : Tree} (h : t.isName) : t.isParameter := by
  obtain ⟨i,span,shape⟩ := t
  cases shape with
  | identifier => exact h
  | _ => contradiction

theorem isItem_of_isExpression {t : Tree} (h : t.isExpression) : t.isItem := by
  unfold isItem
  split
  · rfl
  · exact h

/-- An item of an object. -/
def isProperty (t : Tree) : Bool :=
  match t.shape with
  | .property .. | .shorthand _ | .spread _ => true
  | _ => false

/-- A key that is written out: a word, reserved or not, a string or a number. -/
def isKey (t : Tree) : Bool :=
  match t.shape with
  | .identifier _ | .literal .string _ | .literal .number _ => true
  | _ => false

theorem isStatement_of_isBlock {t : Tree} (h : t.isBlock) : t.isStatement := by
  obtain ⟨i,span,shape⟩ := t
  cases shape with
  | block => rfl
  | _ => contradiction

theorem shape_of_isFunction {t : Tree} (h : t.isFunction) :
    ∃ kind name params body, t.shape = .function kind name params body := by
  obtain ⟨i,span,shape⟩ := t
  cases shape with
  | function kind name params body => exact ⟨kind,name,params,body,rfl⟩
  | _ => contradiction

theorem shape_of_name {t : Tree} {x : String} (h : t.name? = some x) : t.shape = .identifier x := by
  obtain ⟨i,span,shape⟩ := t
  cases shape with
  | identifier =>
    cases h
    rfl
  | _ => contradiction

theorem isKey_of_name {t : Tree} (h : t.name?.isSome) : t.isKey := by
  obtain ⟨i,span,shape⟩ := t
  cases shape with
  | identifier => rfl
  | _ => contradiction

/-- The statement that a statement ends with. -/
def trailing? (t : Tree) : Option Tree :=
  match t.shape with
  | .ifStatement _ _ (some alternate) => some alternate
  | .forLoop _ _ _ body | .forIn _ _ body | .forOf _ _ body | .whileLoop _ body | .labeled _ body
  | .withStatement _ body => some body
  | _ => none

/-- A statement that ends with an `if` without an `else`. An `else` right after it belongs to it. -/
inductive Open : Tree → Prop
  | here {t test consequent : Tree} (h : t.shape = .ifStatement test consequent none) : Open t
  | under {t c : Tree} (h : t.trailing? = some c) (hc : Open c) : Open t

end Tree

/-- The text of a literal that is a word. -/
def LiteralKind.Admits : LiteralKind → String → Prop
  | .null, raw => raw = "null"
  | .boolean, raw => raw = "true" ∨ raw = "false"
  | _, _ => True

/-- The nodes below a node are of the categories that the grammar has there. -/
def Shape.Admissible : Shape Tree → Prop
  | .program body | .block body => ∀ t ∈ body, t.isStatement
  | .function kind name params body =>
    (∀ n ∈ name, n.isName) ∧ (kind = .declaration → name.isSome) ∧ (kind = .arrow → name = none) ∧
      (∀ p ∈ params, p.isParameter) ∧ (body.isBlock ∨ kind = .arrow ∧ body.isExpression)
  | .variableDeclaration _ declarators =>
    declarators ≠ [] ∧ ∀ d ∈ declarators, d.isDeclarator
  | .declarator id value => id.isName ∧ ∀ v ∈ value, v.isExpression
  | .expressionStatement expression => expression.isExpression
  | .returnStatement argument => ∀ a ∈ argument, a.isExpression
  | .ifStatement test consequent alternate =>
    test.isExpression ∧ consequent.isStatement ∧ (∀ t ∈ alternate, t.isStatement) ∧
      (alternate.isSome → ¬ consequent.Open)
  | .switchStatement discriminant cases =>
    discriminant.isExpression ∧ (∀ c ∈ cases, c.isCase) ∧ cases.countP Tree.isDefault ≤ 1
  | .switchCase test consequent =>
    (∀ t ∈ test, t.isExpression) ∧ ∀ t ∈ consequent, t.isStatement
  | .forLoop head test step body =>
    (∀ t ∈ head, t.isExpression ∨ t.isVariableDeclaration) ∧ (∀ t ∈ test, t.isExpression) ∧
      (∀ t ∈ step, t.isExpression) ∧ body.isStatement
  | .forIn left right body | .forOf left right body =>
    Grammar.isLoopTarget left ∧ (left.isExpression ∨ left.isVariableDeclaration) ∧
      right.isExpression ∧ body.isStatement
  | .whileLoop test body => test.isExpression ∧ body.isStatement
  | .doWhile body test => body.isStatement ∧ test.isExpression
  | .tryStatement body handler finalizer =>
    body.isBlock ∧ (∀ h ∈ handler, h.isHandler) ∧ (∀ f ∈ finalizer, f.isBlock) ∧
      (handler.isSome ∨ finalizer.isSome)
  | .catchClause param body => (∀ p ∈ param, p.isName) ∧ body.isBlock
  | .labeled label body => label.isName ∧ body.isStatement
  | .withStatement subject body => subject.isExpression ∧ body.isStatement
  | .breakStatement label | .continueStatement label => ∀ l ∈ label, l.isName
  | .throwStatement argument | .spread argument => argument.isExpression
  | .empty | .debugger | .identifier _ | .this => True
  | .literal kind raw => kind.Admits raw
  | .array elements => ∀ e ∈ elements.filterMap id, e.isItem
  | .object properties => ∀ p ∈ properties, p.isProperty
  | .property key value computed =>
    (if computed then key.isExpression else key.isKey) ∧ value.isExpression
  | .shorthand name => name.isName
  | .assignment _ target value =>
    Grammar.isTarget target ∧ target.isExpression ∧ value.isExpression
  | .binary _ left right => left.isExpression ∧ right.isExpression
  | .unary _ argument | .update _ _ argument => argument.isExpression
  | .conditional test consequent alternate =>
    test.isExpression ∧ consequent.isExpression ∧ alternate.isExpression
  | .call callee arguments _ | .construct callee arguments =>
    callee.isExpression ∧ ∀ a ∈ arguments, a.isItem
  | .member owner key computed _ =>
    owner.isExpression ∧ if computed then key.isExpression else key.name?.isSome
  | .sequence expressions => 2 ≤ expressions.length ∧ ∀ e ∈ expressions, e.isExpression
  | .defaultParam target value => target.isName ∧ value.isExpression
  | .restParam target => target.isName

/-- The brackets that may close around an expression. -/
def TokenKind.closes : TokenKind → Bool
  | .punct .closeParen | .punct .closeBracket => true
  | _ => false

/-- Some tokens end with a node, but for brackets that close around it. -/
def Tree.Trails (tokens : List Token) (t : Tree) : Prop :=
  ∃ (front : List Token) (last : Token) (closing : List Token),
    tokens = front ++ last :: closing ∧ last.span.stop = t.span.stop ∧ ∀ u ∈ closing, u.kind.closes

/-- A sign stands right behind a node and the brackets that close around it. -/
def Tree.FollowedBy (tokens : List Token) (sign : Punct) (t : Tree) : Prop :=
  ∃ (before : List Token) (next : Token) (after : List Token),
    tokens = before ++ next :: after ∧ t.Trails before ∧ next.kind = .punct sign

/-- The shapes of nodes that are more than one token, with the place and the tokens of the node. A
declarator begins with its name. The key of a property is followed by a colon or, in a method, by
parameters, and then the function takes up as much as the property. The operand that an operator is
read before leaves room for one more level. -/
def Shape.Composite (span : Span) (tokens : List Token) : Shape Tree → Prop
  | .declarator id _ => id.span.start = span.start
  | .property key value _ =>
    key.FollowedBy tokens .colon ∧ key.span.stop ≤ value.span.start ∨
      key.FollowedBy tokens .openParen ∧ value.isFunction ∧ value.span = span
  | .identifier _ | .literal .. | .this => False
  | .unary _ operand | .assignment _ _ operand => operand.strain < Grammar.maxNesting
  | _ => True

lemma Shape.Composite.of_isStatement {i : Nat} {span span' : Span} {tokens : List Token}
    {shape : Shape Tree} (h : (Tree.node i span shape).isStatement) :
    shape.Composite span' tokens := by
  unfold Shape.Composite
  split
  case h_8 => trivial
  all_goals contradiction

/-- A tree all of whose nodes have admissible shapes. -/
inductive Tree.Grammatical : Tree → Prop
  | intro {t : Tree} (admissible : t.shape.Admissible) (below : ∀ c ∈ t.children, Grammatical c) :
      Grammatical t

namespace Tree.Grammatical
variable {t c : Tree}

theorem admissible (h : t.Grammatical) : t.shape.Admissible := by
  cases h with
  | intro ha _ => exact ha

theorem child (h : t.Grammatical) (hc : c ∈ t.children) : c.Grammatical := by
  cases h with
  | intro _ hb => exact hb c hc

end Tree.Grammatical

def Shape.isReturn {α : Type} : Shape α → Bool
  | .returnStatement _ => true
  | _ => false

namespace Tree

/-- A node that is a return, or that has one below itself with no function in between. -/
inductive Returns : Tree → Prop
  | here {t : Tree} (h : t.shape.isReturn) : Returns t
  | under {t c : Tree} (hf : t.isFunction = false) (hc : c ∈ t.children) (h : Returns c) : Returns t

theorem Returns.cases_or {t : Tree} (h : t.Returns) :
    t.shape.isReturn ∨ (t.isFunction = false ∧ ∃ c ∈ t.children, c.Returns) := by
  cases h with
  | here h => exact .inl h
  | under hf hc h => exact .inr ⟨hf,_,hc,h⟩

end Tree
end ScriptLint
