import ScriptLint.Proofs.Placement

/-! A printer of syntax trees. Every expression that stands in an expression position is put in one
pair of parentheses, every statement that takes a semicolon gets one, and a comma follows every
element of an array, be it there or not. What is printed is a list of words, which are the kinds of
the tokens that are to be read again; in a text single spaces stand between them. -/
namespace ScriptLint

/-- What is printed for a tree. -/
abbrev Words := List TokenKind

def VariableKind.word : VariableKind → TokenKind
  | .var => .reserved .kwVar
  | .let_ => .name "let"
  | .const => .reserved .kwConst

def LiteralKind.word : LiteralKind → String → TokenKind
  | .null, raw | .boolean, raw => .ofWord raw
  | .number, raw => .number raw
  | .string, raw => .string raw
  | .template, raw => .template raw

def UnaryOperator.word : UnaryOperator → TokenKind
  | .minus => .punct .minus
  | .plus => .punct .plus
  | .not => .punct .bang
  | .bitNot => .punct .tilde
  | .typeOf => .reserved .kwTypeof
  | .void => .reserved .kwVoid
  | .delete => .reserved .kwDelete

def UpdateOperator.punct : UpdateOperator → Punct
  | .increment => .increment
  | .decrement => .decrement

def AssignmentOperator.punct : AssignmentOperator → Punct
  | .assign => .assign
  | .add => .addAssign
  | .sub => .subAssign
  | .mul => .mulAssign
  | .div => .divAssign
  | .rem => .remAssign
  | .pow => .powAssign
  | .shl => .shlAssign
  | .shr => .shrAssign
  | .ushr => .ushrAssign
  | .bitAnd => .bitAndAssign
  | .bitOr => .bitOrAssign
  | .bitXor => .bitXorAssign
  | .and => .andAssign
  | .or => .orAssign
  | .nullish => .nullishAssign

def BinaryOperator.word : BinaryOperator → TokenKind
  | .nullish => .punct .nullish
  | .or => .punct .or
  | .and => .punct .and
  | .bitOr => .punct .bar
  | .bitXor => .punct .caret
  | .bitAnd => .punct .ampersand
  | .eq => .punct .eq
  | .notEq => .punct .notEq
  | .strictEq => .punct .strictEq
  | .strictNotEq => .punct .strictNotEq
  | .less => .punct .less
  | .lessEq => .punct .lessEq
  | .greater => .punct .greater
  | .greaterEq => .punct .greaterEq
  | .isIn => .reserved .kwIn
  | .instanceOf => .reserved .kwInstanceof
  | .shl => .punct .shl
  | .shr => .punct .shr
  | .ushr => .punct .ushr
  | .add => .punct .plus
  | .sub => .punct .minus
  | .mul => .punct .star
  | .div => .punct .slash
  | .rem => .punct .percent
  | .pow => .punct .pow

def parens (ws : Words) : Words := .punct .openParen :: (ws ++ [.punct .closeParen])

def brackets (ws : Words) : Words := .punct .openBracket :: (ws ++ [.punct .closeBracket])

def braces (ws : Words) : Words := .punct .openBrace :: (ws ++ [.punct .closeBrace])

/-- Words with commas in between. -/
def separated : List Words → Words
  | [] => []
  | [ws] => ws
  | ws :: more => ws ++ .punct .comma :: separated more

/-- A node together with its words. -/
structure Printed where
  node : Tree
  words : Words

namespace Printed

/-- An expression in an expression position. -/
def operand (t : Printed) : Words := parens t.words

/-- An item of a call or an array. -/
def item (t : Printed) : Words :=
  match t.node.shape with
  | .spread _ => t.words
  | _ => t.operand

/-- The words of a declaration are without its end. -/
def statement (t : Printed) : Words :=
  match t.node.shape with
  | .variableDeclaration .. => t.words ++ [.punct .semicolon]
  | _ => t.words

/-- The first part of the head of a loop. -/
def head (t : Printed) : Words :=
  match t.node.shape with
  | .variableDeclaration .. => t.words
  | _ => t.operand

/-- The body of an arrow function. -/
def body (t : Printed) : Words :=
  match t.node.shape with
  | .block _ => t.words
  | _ => t.operand

/-- A key, of which the computed ones are expressions. -/
def key (t : Printed) (computed : Bool) : Words := if computed then brackets t.operand else t.words

end Printed

/-- The words of a node, from the nodes below and their words. -/
def Shape.layout : Shape Printed → Words
  | .program body => body.flatMap (·.statement)
  | .function .arrow _ params body =>
    parens (separated (params.map (·.words))) ++ .punct .arrow :: body.body
  | .function _ name params body =>
    .reserved .kwFunction :: (name.elim [] (·.words) ++
      (parens (separated (params.map (·.words))) ++ body.words))
  | .block body => braces (body.flatMap (·.statement))
  | .variableDeclaration kind declarators => kind.word :: separated (declarators.map (·.words))
  | .declarator id value => id.words ++ value.elim [] fun v => .punct .assign :: v.operand
  | .expressionStatement expression => expression.operand ++ [.punct .semicolon]
  | .returnStatement argument =>
    .reserved .kwReturn :: (argument.elim [] (·.operand) ++ [.punct .semicolon])
  | .ifStatement test consequent alternate =>
    .reserved .kwIf :: (parens test.operand ++ (consequent.statement ++
      alternate.elim [] fun t => .reserved .kwElse :: t.statement))
  | .switchStatement discriminant cases =>
    .reserved .kwSwitch :: (parens discriminant.operand ++ braces (cases.flatMap (·.words)))
  | .switchCase test consequent =>
    test.elim [.reserved .kwDefault] (fun t => .reserved .kwCase :: t.operand) ++
      .punct .colon :: consequent.flatMap (·.statement)
  | .forLoop head test step body =>
    .reserved .kwFor :: (parens (head.elim [] (·.head) ++ .punct .semicolon ::
      (test.elim [] (·.operand) ++ .punct .semicolon :: step.elim [] (·.operand))) ++
      body.statement)
  | .forIn left right body =>
    .reserved .kwFor :: (parens (left.head ++ .reserved .kwIn :: right.operand) ++ body.statement)
  | .forOf left right body =>
    .reserved .kwFor :: (parens (left.head ++ .name "of" :: right.operand) ++ body.statement)
  | .whileLoop test body => .reserved .kwWhile :: (parens test.operand ++ body.statement)
  | .doWhile body test =>
    .reserved .kwDo :: (body.statement ++
      .reserved .kwWhile :: (parens test.operand ++ [.punct .semicolon]))
  | .tryStatement body handler finalizer =>
    .reserved .kwTry :: (body.words ++ (handler.elim [] (·.words) ++
      finalizer.elim [] fun t => .reserved .kwFinally :: t.words))
  | .catchClause param body =>
    .reserved .kwCatch :: (param.elim [] (fun t => parens t.words) ++ body.words)
  | .labeled label body => label.words ++ .punct .colon :: body.statement
  | .withStatement subject body => .reserved .kwWith :: (parens subject.operand ++ body.statement)
  | .breakStatement label => .reserved .kwBreak :: (label.elim [] (·.words) ++ [.punct .semicolon])
  | .continueStatement label =>
    .reserved .kwContinue :: (label.elim [] (·.words) ++ [.punct .semicolon])
  | .throwStatement argument => .reserved .kwThrow :: (argument.operand ++ [.punct .semicolon])
  | .empty => [.punct .semicolon]
  | .debugger => [.reserved .kwDebugger,.punct .semicolon]
  | .identifier name => [.ofWord name]
  | .literal kind raw => [kind.word raw]
  | .this => [.reserved .kwThis]
  | .array elements =>
    brackets (elements.flatMap fun e => e.elim [] (·.item) ++ [.punct .comma])
  | .object properties => braces (separated (properties.map (·.words)))
  | .property key value computed => key.key computed ++ .punct .colon :: value.operand
  | .shorthand name => name.words
  | .spread argument => .punct .ellipsis :: argument.operand
  | .assignment operator target value =>
    target.operand ++ .punct operator.punct :: value.operand
  | .binary operator left right => left.operand ++ operator.word :: right.operand
  | .unary operator argument => operator.word :: argument.operand
  | .update operator true argument => .punct operator.punct :: argument.operand
  | .update operator false argument => argument.operand ++ [.punct operator.punct]
  | .conditional test consequent alternate =>
    test.operand ++ .punct .question :: (consequent.operand ++ .punct .colon :: alternate.operand)
  | .call callee arguments optional =>
    callee.operand ++ ((if optional then [.punct .optionalDot] else []) ++
      parens (separated (arguments.map (·.item))))
  | .construct callee arguments =>
    .reserved .kwNew :: (callee.operand ++ parens (separated (arguments.map (·.item))))
  | .member owner key computed optional =>
    owner.operand ++ ((if optional then [.punct .optionalDot]
      else if computed then [] else [.punct .dot]) ++ key.key computed)
  | .sequence expressions => separated (expressions.map (·.operand))
  | .defaultParam target value => target.words ++ .punct .assign :: value.operand
  | .restParam target => .punct .ellipsis :: target.words

/-- Functions that agree on the nodes of a shape lead to the same shape. -/
theorem Shape.map_congr {α β : Type} {f g : α → β} {s : Shape α}
    (h : ∀ a ∈ s.children, f a = g a) : s.map f = s.map g := by
  have hoption {o : Option α} (ho : ∀ a ∈ o.toList, a ∈ s.children) : o.map f = o.map g :=
    Option.map_congr fun a ha => h a (ho a (by simpa using ha))
  cases s with
  | array elements =>
    refine congrArg _ (List.map_congr_left fun e he => Option.map_congr fun a ha => h a ?_)
    exact List.mem_filterMap.mpr ⟨e,he,ha⟩
  | _ => simp_all [map,children]

theorem Shape.map_map {α β γ : Type} (f : α → β) (g : β → γ) (s : Shape α) :
    (s.map f).map g = s.map fun a => g (f a) := by
  cases s <;> simp [map,Function.comp_def]

namespace Tree

theorem length_preorder_child_lt {t c : Tree} (h : c ∈ t.children) :
    c.preorder.length < t.preorder.length := by
  have hmem : c.preorder ∈ t.children.attach.map fun c => c.1.preorder :=
    List.mem_map.mpr ⟨⟨c,h⟩,List.mem_attach ..,rfl⟩
  rw [preorder.eq_1 t,List.length_cons,List.flatMap_def]
  exact Nat.lt_succ_of_le (List.sublist_flatten_of_mem hmem).length_le

/-- The words of a tree. Only the nodes below a node are printed for it. -/
def words (t : Tree) : Words :=
  (t.shape.map fun c =>
    Printed.mk c (if c.preorder.length < t.preorder.length then words c else [])).layout
termination_by t.preorder.length

def printed (t : Tree) : Printed := ⟨t,t.words⟩

theorem words_eq (t : Tree) : t.words = (t.shape.map printed).layout := by
  rw [words]
  refine congrArg Shape.layout (Shape.map_congr fun c hc => ?_)
  rw [if_pos (length_preorder_child_lt hc),printed]

theorem words_of_shape {t : Tree} {s : Shape Tree} (h : t.shape = s) :
    t.words = (s.map printed).layout := by
  rw [words_eq,h]

end Tree

/-- The words that are the same in all texts, brackets apart. -/
def TokenKind.isFixed : TokenKind → Bool
  | .reserved _ => true
  | .name x => x == "let" || x == "of"
  | .punct p => !p.isOpening && !p.isClosing
  | _ => false

/-- The word that a leaf is printed as, unless it is the same for all leaves of its kind. -/
def Shape.leafWord? {α : Type} : Shape α → Option TokenKind
  | .identifier name => some (.ofWord name)
  | .literal kind raw => some (kind.word raw)
  | _ => none

theorem Shape.leafWord_map {α β : Type} (f : α → β) (s : Shape α) :
    (s.map f).leafWord? = s.leafWord? := by
  cases s <;> rfl

/-- A property of words that is kept when a printer puts words together. -/
structure Composable (P : Words → Prop) : Prop where
  nil : P []
  append {ws vs : Words} (h : P ws) (h' : P vs) : P (ws ++ vs)
  fixed {k : TokenKind} (h : k.isFixed) : P [k]
  parens {ws : Words} (h : P ws) : P (parens ws)
  brackets {ws : Words} (h : P ws) : P (brackets ws)
  braces {ws : Words} (h : P ws) : P (braces ws)

namespace Composable
variable {P : Words → Prop} {ws vs : Words} {k : TokenKind} {t : Printed}

theorem elim {o : Option Printed} {f : Printed → Words} (hn : P vs)
    (hf : ∀ t ∈ o.toList, P (f t)) : P (o.elim vs f) := by
  cases o with
  | none => exact hn
  | some t => exact hf t (.head _)

variable (hP : Composable P)
include hP

theorem cons (hk : k.isFixed) (h : P ws) : P (k :: ws) := hP.append (hP.fixed hk) h

theorem flatMap {α : Type} {l : List α} {f : α → Words} (h : ∀ a ∈ l, P (f a)) :
    P (l.flatMap f) := by
  induction l with
  | nil => exact hP.nil
  | cons a l ih => exact hP.append (h a (.head _)) (ih fun b hb => h b (.tail _ hb))

theorem separated {α : Type} {l : List α} {f : α → Words} (h : ∀ a ∈ l, P (f a)) :
    P (separated (l.map f)) := by
  induction l with
  | nil => exact hP.nil
  | cons a l ih =>
    have hl := ih fun b hb => h b (.tail _ hb)
    cases l with
    | nil => exact h a (.head _)
    | cons b l => exact hP.append (h a (.head _)) (hP.cons rfl hl)

theorem item (h : P t.words) : P t.item := by
  unfold Printed.item
  split
  · exact h
  · exact hP.parens h

theorem statement (h : P t.words) : P t.statement := by
  unfold Printed.statement
  split
  · exact hP.append h (hP.fixed rfl)
  · exact h

theorem head (h : P t.words) : P t.head := by
  unfold Printed.head
  split
  · exact h
  · exact hP.parens h

theorem body (h : P t.words) : P t.body := by
  unfold Printed.body
  split
  · exact h
  · exact hP.parens h

theorem key (h : P t.words) (computed : Bool) : P (t.key computed) := by
  cases computed with
  | false => exact h
  | true => exact hP.brackets (hP.parens h)

/-- The words of a node have the property if those of the nodes below have it. -/
theorem layout {s : Shape Printed} (hleaf : ∀ k ∈ s.leafWord?, P [k])
    (h : ∀ c ∈ s.children, P c.words) : P s.layout := by
  have operand {c : Printed} (hc : c ∈ s.children) : P c.operand := hP.parens (h c hc)
  have semicolon : P [.punct .semicolon] := hP.fixed rfl
  cases s with
  | program body => exact hP.flatMap fun c hc => hP.statement (h c hc)
  | function kind name params body =>
    have hparams : P (ScriptLint.parens (ScriptLint.separated (params.map (·.words)))) :=
      hP.parens (hP.separated fun c hc => h c (by simp [Shape.children,hc]))
    have hbody := h body (by simp [Shape.children])
    have hname : P (name.elim [] (·.words)) :=
      elim hP.nil fun c hc => h c (by simp_all [Shape.children])
    cases kind with
    | arrow => exact hP.append hparams (hP.cons rfl (hP.body hbody))
    | _ => exact hP.cons rfl (hP.append hname (hP.append hparams hbody))
  | block body => exact hP.braces (hP.flatMap fun c hc => hP.statement (h c hc))
  | variableDeclaration kind declarators =>
    exact hP.cons (by cases kind <;> rfl) (hP.separated h)
  | declarator id value =>
    refine hP.append (h id (.head _)) (elim hP.nil fun c hc => ?_)
    exact hP.cons rfl (operand (.tail _ hc))
  | expressionStatement => exact hP.append (operand (.head _)) semicolon
  | returnStatement argument =>
    exact hP.cons rfl (hP.append (elim hP.nil fun c hc => operand hc) semicolon)
  | ifStatement test consequent alternate =>
    refine hP.cons rfl (hP.append (hP.parens (operand (.head _))) (hP.append
      (hP.statement (h consequent (.tail _ (.head _)))) (elim hP.nil fun c hc => ?_)))
    exact hP.cons rfl (hP.statement (h c (.tail _ (.tail _ hc))))
  | switchStatement discriminant cases =>
    refine hP.cons rfl (hP.append (hP.parens (operand (.head _))) (hP.braces ?_))
    exact hP.flatMap fun c hc => h c (.tail _ hc)
  | switchCase test consequent =>
    refine hP.append (elim (hP.fixed rfl) fun c hc => ?_)
      (hP.cons rfl (hP.flatMap fun c hc => ?_))
    · exact hP.cons rfl (operand (List.mem_append_left _ hc))
    · exact hP.statement (h c (List.mem_append_right _ hc))
  | forLoop head test step body =>
    refine hP.cons rfl (hP.append (hP.parens (hP.append (elim hP.nil fun c hc => ?_) (hP.cons rfl
      (hP.append (elim hP.nil fun c hc => ?_) (hP.cons rfl (elim hP.nil fun c hc => ?_))))))
      (hP.statement (h body (by simp [Shape.children]))))
    · exact hP.head (h c (by simp_all [Shape.children]))
    · exact operand (by simp_all [Shape.children])
    · exact operand (by simp_all [Shape.children])
  | forIn left right body | forOf left right body =>
    exact hP.cons rfl (hP.append (hP.parens (hP.append (hP.head (h left (.head _)))
      (hP.cons rfl (operand (.tail _ (.head _))))))
      (hP.statement (h body (.tail _ (.tail _ (.head _))))))
  | whileLoop test body | withStatement test body =>
    exact hP.cons rfl (hP.append (hP.parens (operand (.head _)))
      (hP.statement (h body (.tail _ (.head _)))))
  | doWhile body test =>
    exact hP.cons rfl (hP.append (hP.statement (h body (.head _))) (hP.cons rfl
      (hP.append (hP.parens (operand (.tail _ (.head _)))) semicolon)))
  | tryStatement body handler finalizer =>
    refine hP.cons rfl (hP.append (h body (.head _)) (hP.append (elim hP.nil fun c hc => ?_)
      (elim hP.nil fun c hc => hP.cons rfl ?_)))
    · exact h c (.tail _ (List.mem_append_left _ hc))
    · exact h c (.tail _ (List.mem_append_right _ hc))
  | catchClause param body =>
    refine hP.cons rfl (hP.append (elim hP.nil fun c hc => ?_) (h body (by simp [Shape.children])))
    exact operand (List.mem_append_left _ hc)
  | labeled label body =>
    exact hP.append (h label (.head _)) (hP.cons rfl (hP.statement (h body (.tail _ (.head _)))))
  | breakStatement label | continueStatement label =>
    exact hP.cons rfl (hP.append (elim hP.nil h) semicolon)
  | throwStatement => exact hP.cons rfl (hP.append (operand (.head _)) semicolon)
  | empty | this => exact hP.fixed rfl
  | debugger => exact hP.cons rfl semicolon
  | identifier | literal => exact hleaf _ rfl
  | array elements =>
    refine hP.brackets (hP.flatMap fun e he => hP.append (elim hP.nil fun c hc => ?_)
      (hP.fixed rfl))
    exact hP.item (h c (List.mem_filterMap.mpr ⟨e,he,Option.mem_toList.mp hc⟩))
  | object => exact hP.braces (hP.separated h)
  | property key value computed =>
    exact hP.append (hP.key (h key (.head _)) computed) (hP.cons rfl (operand (.tail _ (.head _))))
  | shorthand name => exact h name (.head _)
  | spread => exact hP.cons rfl (operand (.head _))
  | assignment operator =>
    exact hP.append (operand (.head _))
      (hP.cons (by cases operator <;> rfl) (operand (.tail _ (.head _))))
  | binary operator =>
    exact hP.append (operand (.head _))
      (hP.cons (by cases operator <;> rfl) (operand (.tail _ (.head _))))
  | unary operator => exact hP.cons (by cases operator <;> rfl) (operand (.head _))
  | update operator leading =>
    have hoperator : P [.punct operator.punct] := hP.fixed (by cases operator <;> rfl)
    cases leading with
    | true => exact hP.append hoperator (operand (.head _))
    | false => exact hP.append (operand (.head _)) hoperator
  | conditional =>
    exact hP.append (operand (.head _)) (hP.cons rfl (hP.append (operand (.tail _ (.head _)))
      (hP.cons rfl (operand (.tail _ (.tail _ (.head _)))))))
  | call callee arguments optional =>
    have harguments := hP.parens (hP.separated fun c hc => hP.item (h c (.tail _ hc)))
    cases optional with
    | true => exact hP.append (operand (.head _)) (hP.cons rfl harguments)
    | false => exact hP.append (operand (.head _)) harguments
  | construct callee arguments =>
    exact hP.cons rfl (hP.append (operand (.head _))
      (hP.parens (hP.separated fun c hc => hP.item (h c (.tail _ hc)))))
  | member owner key computed optional =>
    have hkey := hP.key (h key (.tail _ (.head _))) computed
    refine hP.append (operand (.head _)) (hP.append ?_ hkey)
    cases optional <;> cases computed <;> first | exact hP.nil | exact hP.fixed rfl
  | sequence => exact hP.separated fun c hc => operand hc
  | defaultParam target value =>
    exact hP.append (h target (.head _)) (hP.cons rfl (operand (.tail _ (.head _))))
  | restParam target => exact hP.cons rfl (h target (.head _))

/-- The words of a tree have the property if those of its leaves have it. -/
theorem words {t : Tree} (hleaf : ∀ u ∈ t.preorder, ∀ k ∈ u.shape.leafWord?, P [k]) :
    P t.words := by
  induction t using Tree.below_induction with
  | step t ih =>
    rw [Tree.words_eq]
    refine hP.layout (fun k hk => hleaf t (Tree.mem_preorder.mpr (.inl rfl)) k ?_) fun c hc => ?_
    · rwa [Shape.leafWord_map] at hk
    · rw [Shape.children_map] at hc
      obtain ⟨u,hu,rfl⟩ := List.mem_map.mp hc
      exact ih u hu fun v hv => hleaf v (Tree.mem_preorder.mpr (.inr ⟨u,hu,hv⟩))

end Composable

/-- Words as they stand in a text. -/
def spell : Words → List Char
  | [] => []
  | [k] => k.text.toList
  | k :: ks => k.text.toList ++ ' ' :: spell ks

/-- The text of a syntax tree. -/
def SyntaxTree.render (t : SyntaxTree) : ByteArray :=
  (String.ofList (spell (t.root?.elim [] Tree.words))).toUTF8

/-- A tree without the numbers and the places of its nodes. -/
inductive Outline where
  | node (shape : Shape Unit) (below : List Outline)

namespace Tree

def outline (t : Tree) : Outline :=
  .node (t.shape.map fun _ => ()) (t.children.attach.map fun c => outline c.1)
termination_by t
decreasing_by exact sizeOf_child_lt c.2

/-- The outline of a node depends on the outlines of the nodes below and on nothing else of them. -/
theorem outline_congr {i j : NodeId} {span span' : Span} {s s' : Shape Tree}
    (h : s.map outline = s'.map outline) :
    (node i span s).outline = (node j span' s').outline := by
  have hnode (i : NodeId) (span : Span) (s : Shape Tree) : (node i span s).outline =
      .node ((s.map outline).map fun _ => ()) (s.map outline).children := by
    rw [outline,Shape.map_map,Shape.children_map]
    simp [children,shape]
  rw [hnode,hnode,h]

/-- Nodes of the same outline are of the same shape. -/
theorem shape_of_outline {t u : Tree} (h : u.outline = t.outline) :
    (u.shape.map fun _ => ()) = t.shape.map fun _ => () := by
  rw [outline,outline] at h
  exact (Outline.node.inj h).1

end Tree
end ScriptLint
