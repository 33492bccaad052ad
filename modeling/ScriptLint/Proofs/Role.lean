import Mathlib
import ScriptLint.Proofs.Category

/-! The parts that nodes play in a program. Which part the nodes below a node may play depends on
its shape alone: nothing holds a program, only a variable declaration holds declarators, and
expressions hold nothing but expressions and the like, functions apart. -/
namespace ScriptLint

/-- Clauses are cases and handlers; the inner parts are expressions and all that is part of them. -/
inductive Role where
  | program | statement | clause | declarator | inner
  deriving DecidableEq

/-- The part that nodes of a kind play. -/
def NodeKind.role : NodeKind → Role
  | .program => .program
  | .block | .variableDeclaration | .switch => .statement
  | .declarator => .declarator
  | .case | .handler => .clause
  | .other => .inner

/-- The parts that the nodes below a node may play. -/
def Shape.holds : Shape Tree → Role → Bool
  | .program _, r | .function .., r | .block _, r | .ifStatement .., r | .switchCase .., r
  | .forLoop .., r | .forIn .., r | .forOf .., r | .whileLoop .., r | .doWhile .., r
  | .catchClause .., r | .labeled .., r | .withStatement .., r => r = .statement || r = .inner
  | .switchStatement .., r => r = .clause || r = .inner
  | .tryStatement .., r => r = .clause || r = .statement
  | .variableDeclaration .., r => r = .declarator
  | _, r => r = .inner

namespace Tree

def role (t : Tree) : Role :=
  match t.shape with
  | .program _ => .program
  | .function kind .. => if kind = .declaration then .statement else .inner
  | .block _ | .variableDeclaration .. | .expressionStatement _ | .returnStatement _
  | .ifStatement .. | .switchStatement .. | .forLoop .. | .forIn .. | .forOf .. | .whileLoop ..
  | .doWhile .. | .tryStatement .. | .labeled .. | .withStatement .. | .breakStatement _
  | .continueStatement _ | .throwStatement _ | .empty | .debugger => .statement
  | .switchCase .. | .catchClause .. => .clause
  | .declarator .. => .declarator
  | _ => .inner

variable {t : Tree}

theorem role_of_isKind {k : NodeKind} (h : t.isKind k) (hk : k ≠ .other) : t.role = k.role := by
  obtain ⟨i,span,shape⟩ := t
  obtain rfl := beq_iff_eq.mp h
  cases shape with
  | program | block | variableDeclaration | declarator | switchStatement | switchCase
  | catchClause => rfl
  | _ => contradiction

theorem role_of_isExpression (h : t.isExpression) : t.role = .inner := by
  obtain ⟨i,span,shape⟩ := t
  cases shape with
  | function kind => exact if_neg (bne_iff_ne.mp h)
  | identifier | literal | this | array | object | assignment | binary | unary | update
  | conditional | call | construct | member | sequence => rfl
  | _ => contradiction

theorem role_of_isStatement (h : t.isStatement) : t.role = .statement := by
  obtain ⟨i,span,shape⟩ := t
  cases shape with
  | function kind => exact if_pos (beq_iff_eq.mp h)
  | block | variableDeclaration | expressionStatement | returnStatement | ifStatement
  | switchStatement | forLoop | forIn | forOf | whileLoop | doWhile | tryStatement | labeled
  | withStatement | breakStatement | continueStatement | throwStatement | empty | debugger => rfl
  | _ => contradiction

theorem role_of_isParameter (h : t.isParameter) : t.role = .inner := by
  obtain ⟨i,span,shape⟩ := t
  cases shape with
  | identifier | defaultParam | restParam => rfl
  | _ => contradiction

theorem role_of_isProperty (h : t.isProperty) : t.role = .inner := by
  obtain ⟨i,span,shape⟩ := t
  cases shape with
  | property | shorthand | spread => rfl
  | _ => contradiction

theorem role_of_isKey (h : t.isKey) : t.role = .inner := by
  obtain ⟨i,span,shape⟩ := t
  cases shape with
  | identifier | literal => rfl
  | _ => contradiction

theorem role_of_isItem (h : t.isItem) : t.role = .inner := by
  unfold isItem at h
  split at h
  next hs => simp [role,hs]
  next => exact role_of_isExpression h

theorem role_of_isName (h : t.isName) : t.role = .inner :=
  role_of_isParameter (isParameter_of_isName h)

end Tree

namespace Shape

/-- The nodes below that stand where a statement is expected. -/
def statementSlots : Shape Tree → List Tree
  | .program body | .block body | .switchCase _ body => body
  | .ifStatement _ consequent alternate => consequent :: alternate.toList
  | .forLoop _ _ _ body | .forIn _ _ body | .forOf _ _ body | .whileLoop _ body | .doWhile body _
  | .labeled _ body | .withStatement _ body => [body]
  | _ => []

/-- The names of properties that are written out, which may be reserved words. -/
def keySlots : Shape Tree → List Tree
  | .property key _ false | .member _ key false _ => [key]
  | _ => []

/-- The items of calls and arrays, which may be spread. -/
def itemSlots : Shape Tree → List Tree
  | .array elements => elements.filterMap id
  | .call _ arguments _ | .construct _ arguments => arguments
  | _ => []

def propertySlots : Shape Tree → List Tree
  | .object properties => properties
  | _ => []

def parameterSlots : Shape Tree → List Tree
  | .function _ _ params _ => params
  | _ => []

def declaratorSlots : Shape Tree → List Tree
  | .variableDeclaration _ declarators => declarators
  | _ => []

def caseSlots : Shape Tree → List Tree
  | .switchStatement _ cases => cases
  | _ => []

def handlerSlots : Shape Tree → List Tree
  | .tryStatement _ handler _ => handler.toList
  | _ => []

/-- The slot of a node below a node of the given shape, by what is expected there and by the part that
is played there. -/
inductive Slot (s : Shape Tree) (c : Tree) : Prop
  | expression (h : c.isExpression) (hr : s.holds .inner)
  | name (h : c.isName) (hr : s.holds .inner)
  | block (h : c.isBlock) (hr : s.holds .statement)
  | declaration (h : c.isVariableDeclaration) (hr : s.holds .statement)
  | statement (h : c.isStatement) (hr : s.holds .statement) (hs : c ∈ s.statementSlots)
  | key (h : c.isKey) (hr : s.holds .inner) (hs : c ∈ s.keySlots)
  | item (h : c.isItem) (hr : s.holds .inner) (hs : c ∈ s.itemSlots)
  | property (h : c.isProperty) (hr : s.holds .inner) (hs : c ∈ s.propertySlots)
  | parameter (h : c.isParameter) (hr : s.holds .inner) (hs : c ∈ s.parameterSlots)
  | declarator (h : c.isDeclarator) (hr : s.holds .declarator) (hs : c ∈ s.declaratorSlots)
  | case (h : c.isCase) (hr : s.holds .clause) (hs : c ∈ s.caseSlots)
  | handler (h : c.isHandler) (hr : s.holds .clause) (hs : c ∈ s.handlerSlots)

/-- Every node below a node of an admissible shape has a slot there. -/
theorem slot_of_admissible {s : Shape Tree} {c : Tree} (h : s.Admissible) (hc : c ∈ s.children) :
    s.Slot c := by
  cases s with
  | program | block => exact .statement (h c hc) rfl hc
  | variableDeclaration => exact .declarator (h.2 c hc) rfl hc
  | array => exact .item (h c hc) rfl hc
  | object => exact .property (h c hc) rfl hc
  | sequence => exact .expression (h.2 c hc) rfl
  | expressionStatement | throwStatement | spread | unary | update =>
    obtain rfl := List.mem_singleton.mp hc
    exact .expression h rfl
  | shorthand | restParam =>
    obtain rfl := List.mem_singleton.mp hc
    exact .name h rfl
  | returnStatement => exact .expression (h c (Option.mem_toList.mp hc)) rfl
  | breakStatement | continueStatement => exact .name (h c (Option.mem_toList.mp hc)) rfl
  | function =>
    obtain ⟨hname,_,_,hparams,hbody⟩ := h
    simp only [children,List.mem_append,Option.mem_toList,List.mem_singleton] at hc
    rcases hc with (hc | hc) | rfl
    · exact .name (hname c hc) rfl
    · exact .parameter (hparams c hc) rfl hc
    · rcases hbody with hbody | ⟨_,hbody⟩
      · exact .block hbody rfl
      · exact .expression hbody rfl
  | declarator =>
    rcases List.mem_cons.mp hc with rfl | hc
    · exact .name h.1 rfl
    · exact .expression (h.2 c (Option.mem_toList.mp hc)) rfl
  | ifStatement =>
    obtain ⟨htest,hconsequent,halternate,_⟩ := h
    rcases List.mem_cons.mp hc with rfl | hc
    · exact .expression htest rfl
    · refine .statement ?_ rfl hc
      rcases List.mem_cons.mp hc with rfl | hc
      · exact hconsequent
      · exact halternate c (Option.mem_toList.mp hc)
  | switchStatement =>
    rcases List.mem_cons.mp hc with rfl | hc
    · exact .expression h.1 rfl
    · exact .case (h.2.1 c hc) rfl hc
  | switchCase =>
    rcases List.mem_append.mp hc with hc | hc
    · exact .expression (h.1 c (Option.mem_toList.mp hc)) rfl
    · exact .statement (h.2 c hc) rfl hc
  | forLoop =>
    obtain ⟨hhead,htest,hstep,hbody⟩ := h
    simp only [children,List.mem_append,Option.mem_toList,List.mem_singleton] at hc
    rcases hc with ((hc | hc) | hc) | rfl
    · rcases hhead c hc with hhead | hhead
      · exact .expression hhead rfl
      · exact .declaration hhead rfl
    · exact .expression (htest c hc) rfl
    · exact .expression (hstep c hc) rfl
    · exact .statement hbody rfl (.head _)
  | forIn | forOf =>
    obtain ⟨_,hleft,hright,hbody⟩ := h
    simp only [children,List.mem_cons,List.not_mem_nil,or_false] at hc
    rcases hc with rfl | rfl | rfl
    · rcases hleft with hleft | hleft
      · exact .expression hleft rfl
      · exact .declaration hleft rfl
    · exact .expression hright rfl
    · exact .statement hbody rfl (.head _)
  | whileLoop | withStatement =>
    rcases List.mem_pair.mp hc with rfl | rfl
    · exact .expression h.1 rfl
    · exact .statement h.2 rfl (.head _)
  | doWhile =>
    rcases List.mem_pair.mp hc with rfl | rfl
    · exact .statement h.1 rfl (.head _)
    · exact .expression h.2 rfl
  | tryStatement =>
    obtain ⟨hbody,hhandler,hfinalizer,_⟩ := h
    simp only [children,List.mem_cons,List.mem_append,Option.mem_toList] at hc
    rcases hc with rfl | hc | hc
    · exact .block hbody rfl
    · exact .handler (hhandler c hc) rfl (Option.mem_toList.mpr hc)
    · exact .block (hfinalizer c hc) rfl
  | catchClause =>
    simp only [children,List.mem_append,Option.mem_toList,List.mem_singleton] at hc
    rcases hc with hc | rfl
    · exact .name (h.1 c hc) rfl
    · exact .block h.2 rfl
  | labeled =>
    rcases List.mem_pair.mp hc with rfl | rfl
    · exact .name h.1 rfl
    · exact .statement h.2 rfl (.head _)
  | property key value computed =>
    obtain ⟨hkey,hvalue⟩ := h
    rcases List.mem_pair.mp hc with rfl | rfl
    · cases computed with
      | true => exact .expression hkey rfl
      | false => exact .key hkey rfl (.head _)
    · exact .expression hvalue rfl
  | member owner key computed =>
    obtain ⟨howner,hkey⟩ := h
    rcases List.mem_pair.mp hc with rfl | rfl
    · exact .expression howner rfl
    · cases computed with
      | true => exact .expression hkey rfl
      | false => exact .key (Tree.isKey_of_name hkey) rfl (.head _)
  | assignment =>
    rcases List.mem_pair.mp hc with rfl | rfl
    · exact .expression h.2.1 rfl
    · exact .expression h.2.2 rfl
  | binary =>
    rcases List.mem_pair.mp hc with rfl | rfl
    · exact .expression h.1 rfl
    · exact .expression h.2 rfl
  | conditional =>
    obtain ⟨htest,hconsequent,halternate⟩ := h
    simp only [children,List.mem_cons,List.not_mem_nil,or_false] at hc
    rcases hc with rfl | rfl | rfl
    · exact .expression htest rfl
    · exact .expression hconsequent rfl
    · exact .expression halternate rfl
  | call | construct =>
    rcases List.mem_cons.mp hc with rfl | hc
    · exact .expression h.1 rfl
    · exact .item (h.2 c hc) rfl hc
  | defaultParam =>
    rcases List.mem_pair.mp hc with rfl | rfl
    · exact .name h.1 rfl
    · exact .expression h.2 rfl
  | empty | debugger | identifier | literal | this => cases hc

/-- The nodes below a node of an admissible shape play the parts that they may. -/
theorem holds_of_admissible {s : Shape Tree} {c : Tree} (h : s.Admissible) (hc : c ∈ s.children) :
    s.holds c.role := by
  have hrole {r : Role} (hr : s.holds r) (hc : c.role = r) : s.holds c.role := hc ▸ hr
  cases slot_of_admissible h hc with
  | expression h hr => exact hrole hr (Tree.role_of_isExpression h)
  | name h hr => exact hrole hr (Tree.role_of_isName h)
  | statement h hr => exact hrole hr (Tree.role_of_isStatement h)
  | key h hr => exact hrole hr (Tree.role_of_isKey h)
  | item h hr => exact hrole hr (Tree.role_of_isItem h)
  | property h hr => exact hrole hr (Tree.role_of_isProperty h)
  | parameter h hr => exact hrole hr (Tree.role_of_isParameter h)
  | block h hr | declaration h hr | declarator h hr | case h hr | handler h hr =>
    exact hrole hr (Tree.role_of_isKind h (by decide))

end Shape

namespace Tree
variable {t : Tree}

namespace Grammatical
variable {c : Tree}

theorem role_child_ne_program (h : t.Grammatical) (hc : c ∈ t.children) : c.role ≠ .program := by
  have hholds := Shape.holds_of_admissible h.admissible hc
  intro hp
  rw [hp] at hholds
  unfold Shape.holds at hholds
  split at hholds <;> contradiction

/-- The parts of expressions and declarators are inner parts, except for what functions hold. -/
theorem role_child_eq_inner (h : t.Grammatical) (hrole : t.role = .inner ∨ t.role = .declarator)
    (hf : t.isFunction = false) (hc : c ∈ t.children) : c.role = .inner := by
  have hholds := Shape.holds_of_admissible h.admissible hc
  obtain ⟨i,span,shape⟩ := t
  cases shape with
  | function => contradiction
  | program | block | ifStatement | switchStatement | switchCase | forLoop | forIn | forOf
  | whileLoop | doWhile | tryStatement | catchClause | labeled | withStatement
  | variableDeclaration => rcases hrole with hrole | hrole <;> contradiction
  | _ => exact of_decide_eq_true hholds

theorem isVariableDeclaration_of_child (h : t.Grammatical) (hc : c ∈ t.children)
    (hrole : c.role = .declarator) : t.isVariableDeclaration := by
  have hholds := Shape.holds_of_admissible h.admissible hc
  rw [hrole] at hholds
  obtain ⟨i,span,shape⟩ := t
  cases shape with
  | variableDeclaration => rfl
  | _ => contradiction

end Grammatical
end Tree
end ScriptLint
