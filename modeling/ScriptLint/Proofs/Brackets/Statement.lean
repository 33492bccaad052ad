import Mathlib
import ScriptLint.Proofs.Brackets.Expression

/-! The productions of statements close the brackets they open, and with them all productions do. -/
namespace ScriptLint.Grammar

theorem isIdle_of_declares {c : Cursor} {kind : VariableKind} (h : c.declares? = some kind) :
    c.current.kind.isIdle = true := by
  unfold Cursor.declares? at h
  split at h
  · next hkind => exact hkind ▸ rfl
  · next hkind => exact hkind ▸ rfl
  · next hkind => exact hkind ▸ rfl
  · cases h

namespace Carries
variable {g : Productions} {tokens : List Token} {owed : List Punct} {held : List Tree}
  {k : TokenKind}

section
variable (h : g.Tallied)
include h

theorem parenthesized : Adds tokens owed held (parenthesized g) := enclosed rfl h.expression

theorem declarator {inHead : Bool} : Adds tokens owed held (declarator g inHead) := by
  refine start.bind fun _ => bindingName.bind fun _ => (eatPunct rfl).bind fun _ => .ite ?_ ?_
  · exact h.assignment.bind fun _ => finish (by grind [Shape.children])
  · exact finish (by grind [Shape.children])

theorem declarators {inHead : Bool} : AddsAll tokens owed held (declarators g inHead) := by
  refine (declarator h).bind fun _ => (eatPunct rfl).bind fun _ => .ite ?_ (pure (by grind))
  exact h.declarators.bind fun _ => pure (by grind)

theorem declarationHead {kind : VariableKind} {inHead : Bool} (hk : k.isIdle = true) :
    Carries (Facing k (Tally tokens owed held)) (declarationHead g kind inHead) fun head =>
      Tally tokens owed (head.2.children ++ held) := by
  refine start.bind fun _ => (advance rfl (.idle hk)).bind fun _ => ?_
  exact h.declarators.bind fun _ => pure (List.Subset.refl _)

theorem variableStatement {kind : VariableKind} (hk : k.isIdle = true) :
    AddsAt k tokens owed held (variableStatement g kind) := by
  refine (declarationHead h hk).bind fun _ => endStatement.bind fun _ => ?_
  exact finish (List.Subset.refl _)

theorem expressionStatement : Adds tokens owed held (expressionStatement g) := by
  refine start.bind fun _ => (expression h).bind fun _ => endStatement.bind fun _ => ?_
  exact finish (by grind [Shape.children])

theorem ifStatement (hk : k.isIdle = true) : AddsAt k tokens owed held (ifStatement g) := by
  refine start.bind fun _ => (advance rfl (.idle hk)).bind fun _ => ?_
  refine (parenthesized h).bind fun _ => h.statement.bind fun _ => eatWord.bind fun _ => .ite ?_ ?_
  · exact h.statement.some.bind fun _ => finish (by grind [Shape.children])
  · exact none.bind fun _ => finish (by grind [Shape.children])

theorem whileLoop (hk : k.isIdle = true) : AddsAt k tokens owed held (whileLoop g) := by
  refine start.bind fun _ => (advance rfl (.idle hk)).bind fun _ => ?_
  refine (parenthesized h).bind fun _ => h.statement.bind fun _ => ?_
  exact finish (by grind [Shape.children])

theorem doWhile (hk : k.isIdle = true) : AddsAt k tokens owed held (doWhile g) := by
  refine start.bind fun _ => (advance rfl (.idle hk)).bind fun _ => h.statement.bind fun _ => ?_
  refine expectWord.bind fun _ => (parenthesized h).bind fun _ => ?_
  exact (eatPunct rfl).bind fun _ => finish (by grind [Shape.children])

theorem withStatement (hk : k.isIdle = true) : AddsAt k tokens owed held (withStatement g) := by
  refine start.bind fun _ => (advance rfl (.idle hk)).bind fun _ => ?_
  refine (parenthesized h).bind fun _ => h.statement.bind fun _ => ?_
  exact finish (by grind [Shape.children])

theorem returnStatement (hk : k.isIdle = true) : AddsAt k tokens owed held (returnStatement g) := by
  refine start.bind fun _ => read.bind fun _ => .ite ?_ fail
  refine (advance rfl (.idle hk)).bind fun _ => current.bind fun t => .facing ?_
  extract_lets bare tail
  have htail (argument : Option Tree) : Carries (Tally tokens owed (argument.toList ++ held))
      (tail argument) fun t => Tally tokens owed (t :: held) :=
    endStatement.bind fun _ => finish (List.Subset.refl _)
  exact .ite (none.bind htail) (h.expression.some.bind htail)

omit h in
theorem jump {shape : Option Tree → Shape Tree} (hk : k.isIdle = true)
    (hshape : ∀ label, (shape label).children = label.toList) :
    AddsAt k tokens owed held (jump shape) := by
  refine start.bind fun _ => (advance rfl (.idle hk)).bind fun _ => current.bind fun t => .facing ?_
  extract_lets tail
  have htail (label : Option Tree) : Carries (Tally tokens owed (label.toList ++ held))
      (tail label) fun t => Tally tokens owed (t :: held) :=
    endStatement.bind fun _ => finish (by rw [hshape]; exact List.Subset.refl _)
  split
  · exact .ite (none.bind htail) (bindingName.some.bind htail)
  · exact none.bind htail

theorem throwStatement (hk : k.isIdle = true) : AddsAt k tokens owed held (throwStatement g) := by
  refine start.bind fun _ => (advance rfl (.idle hk)).bind fun _ => current.bind fun _ => .facing ?_
  refine .ite fail (h.expression.bind fun _ => endStatement.bind fun _ => ?_)
  exact finish (by grind [Shape.children])

theorem forHead : Carries (Tally tokens owed held) (forHead g) fun head =>
    Tally tokens owed (head.toList ++ held) := by
  refine atPunct.bind fun _ => .ite none (get.bind fun c => .here ?_)
  split
  · next hdeclares =>
    refine (declarationHead h (isIdle_of_declares hdeclares)).bind fun _ => ?_
    exact (finish (List.Subset.refl _)).bind fun _ => pure (List.Subset.refl _)
  · exact h.expression.facing.bind fun _ => pure (List.Subset.refl _)

/-- The parenthesis before the head of a loop is closed after it. -/
theorem forSteps {start : Nat} {head : Option Tree} :
    Carries (Tally tokens (.closeParen :: owed) (head.toList ++ held)) (forSteps g start head)
      fun t => Tally tokens owed (t :: held) := by
  refine (expectPunct (.idle rfl)).bind fun _ => atPunct.bind fun _ => ?_
  extract_lets rest
  have hrest (test : Option Tree) :
      Carries (Tally tokens (.closeParen :: owed) (test.toList ++ (head.toList ++ held)))
        (rest test) fun t => Tally tokens owed (t :: held) := by
    refine (expectPunct (.idle rfl)).bind fun _ => atPunct.bind fun _ => ?_
    extract_lets tail
    have htail (step : Option Tree) : Carries (Tally tokens (.closeParen :: owed)
        (step.toList ++ (test.toList ++ (head.toList ++ held)))) (tail step)
          fun t => Tally tokens owed (t :: held) := by
      refine (expectPunct (.closing rfl rfl)).bind fun _ => h.statement.bind fun _ => ?_
      exact finish (by grind [Shape.children])
    exact .ite (none.bind htail) (h.expression.some.bind htail)
  exact .ite (none.bind hrest) (h.expression.some.bind hrest)

theorem forMembers {start : Nat} {left : Tree} {shape : Tree → Tree → Tree → Shape Tree}
    {right : Parser Tree} (hk : k.isIdle = true)
    (hright : Carries (Tally tokens (.closeParen :: owed) (left :: held)) right fun t =>
      Tally tokens (.closeParen :: owed) (t :: left :: held))
    (hshape : ∀ left right body, (shape left right body).children = [left,right,body]) :
    Carries (Facing k (Tally tokens (.closeParen :: owed) (left :: held)))
      (forMembers g start left shape right) fun t => Tally tokens owed (t :: held) := by
  refine .ite ((advance rfl (.idle hk)).bind fun _ => hright.bind fun _ => ?_) failAt
  refine (expectPunct (.closing rfl rfl)).bind fun _ => h.statement.bind fun _ => ?_
  exact finish (by rw [hshape]; grind)

theorem forLoop (hk : k.isIdle = true) : AddsAt k tokens owed held (forLoop g) := by
  refine start.bind fun _ => (advance rfl (.idle hk)).bind fun _ => ?_
  refine (expectPunct (.opening rfl rfl)).bind fun _ => (forHead h).bind fun head => ?_
  refine current.bind fun t => ?_
  split
  · next hkind => exact forMembers h (hkind ▸ rfl) h.assignment fun _ _ _ => rfl
  · next hkind => exact forMembers h (hkind ▸ rfl) h.expression fun _ _ _ => rfl
  · exact (forSteps h).facing

omit h in
theorem catchParameter : Carries (Tally tokens owed held) catchParameter fun param =>
    Tally tokens owed (param.toList ++ held) := by
  refine eatPunct_ite (.opening rfl rfl) (bindingName.bind fun _ => ?_) none
  exact (expectPunct (.closing rfl rfl)).bind fun _ => pure (List.Subset.refl _)

theorem catchClause : Carries (Tally tokens owed held) (catchClause g) fun clause =>
    Tally tokens owed (clause.toList ++ held) := by
  refine start.bind fun _ => eatWord.bind fun _ => .ite ?_ none
  refine catchParameter.bind fun _ => (block h).bind fun _ => .some (finish ?_)
  grind [Shape.children]

theorem tryStatement (hk : k.isIdle = true) : AddsAt k tokens owed held (tryStatement g) := by
  refine start.bind fun _ => (advance rfl (.idle hk)).bind fun _ => (block h).bind fun body => ?_
  refine (catchClause h).bind fun handler => eatWord.bind fun _ => ?_
  extract_lets tail
  have htail (finalizer : Option Tree) : Carries
      (Tally tokens owed (finalizer.toList ++ (handler.toList ++ body :: held))) (tail finalizer)
      fun t => Tally tokens owed (t :: held) :=
    .ite fail (finish (by grind [Shape.children]))
  exact .ite ((block h).some.bind htail) (none.bind htail)

/-- The brace before the cases of a switch is closed after the last one. -/
theorem caseBody {start : Nat} {hasDefault : Bool} (test : Option Tree) :
    Carries (Tally tokens (.closeBrace :: owed) (test.toList ++ held))
      (caseBody g start test hasDefault) fun ts => Tally tokens owed (ts ++ held) := by
  refine (expectPunct (.idle rfl)).bind fun _ => h.caseItems.bind fun _ => ?_
  refine bind (M := fun t => Tally tokens (.closeBrace :: owed) (t :: held)) (finish ?_) fun _ => ?_
  · grind [Shape.children]
  · exact h.cases.bind fun _ => pure (by grind)

theorem cases {hasDefault : Bool} : Carries (Tally tokens (.closeBrace :: owed) held)
    (cases g hasDefault) fun ts => Tally tokens owed (ts ++ held) := by
  refine start.bind fun _ => current.bind fun t => ?_
  split
  · next hkind => exact (advance hkind (.closing rfl rfl)).bind fun _ => pure (List.Subset.refl _)
  · next hkind =>
    refine (advance hkind (.idle rfl)).bind fun _ => h.expression.bind fun test => ?_
    exact caseBody h (.some test)
  · next hkind => exact .ite fail ((advance hkind (.idle rfl)).bind fun _ => caseBody h .none)
  · exact unexpected

theorem switchStatement (hk : k.isIdle = true) : AddsAt k tokens owed held (switchStatement g) := by
  refine start.bind fun _ => (advance rfl (.idle hk)).bind fun _ => ?_
  refine (parenthesized h).bind fun _ => (expectPunct (.opening rfl rfl)).bind fun _ => ?_
  refine h.cases.bind fun _ => ?_
  exact finish (by grind [Shape.children])

/-- A label is followed by a colon. -/
theorem labeled : Carries (fun c => c.next.kind = .punct .colon ∧ Tally tokens owed held c)
    (labeled g) fun t => Tally tokens owed (t :: held) := by
  refine start.bind fun _ => bind
    (M := fun label => Facing (.punct .colon) (Tally tokens owed (label :: held))) ?_ fun _ => ?_
  · intro s c hc
    refine ((bindingName s c hc.2).and (bindingName_parts hc.2.wellFormed)).mono ?_
    intro label d hd
    obtain ⟨hd,x,hrest,-⟩ := hd
    have hahead : c.ahead = d.rest := (List.cons.inj hrest).2
    have hnext := hc.1
    rw [Cursor.next,hahead] at hnext
    exact ⟨hnext,hd⟩
  · refine (advance rfl (.idle rfl)).bind fun _ => h.statement.bind fun _ => ?_
    exact finish (by grind [Shape.children])

theorem wordStatement {w : Keyword} :
    AddsAt (.reserved w) tokens owed held (wordStatement g w) := by
  unfold Grammar.wordStatement
  split
  · exact variableStatement h rfl
  · exact variableStatement h rfl
  · exact (function h).facing
  · exact ifStatement h rfl
  · exact forLoop h rfl
  · exact whileLoop h rfl
  · exact doWhile h rfl
  · exact returnStatement h rfl
  · exact jump rfl fun _ => rfl
  · exact jump rfl fun _ => rfl
  · exact throwStatement h rfl
  · exact tryStatement h rfl
  · exact switchStatement h rfl
  · exact withStatement h rfl
  · refine start.bind fun _ => (advance rfl (.idle rfl)).bind fun _ => ?_
    exact endStatement.bind fun _ => finish (by grind)
  · exact fail
  · exact fail
  · exact fail
  · exact (expressionStatement h).facing

theorem statement : Adds tokens owed held (statement g) := by
  refine .nested (get.bind fun c => ?_)
  split
  · exact .here (block h).facing
  · next hkind =>
    refine .here (start.bind fun _ => (advance hkind (.idle rfl)).bind fun _ => ?_)
    exact finish (by grind)
  · next hkind =>
    refine .here ?_
    rw [hkind]
    exact wordStatement h
  · split
    · next hdeclares => exact .here (variableStatement h (isIdle_of_declares hdeclares))
    · refine .ite_of (fun hcolon => ?_) (.here (expressionStatement h).facing)
      exact (labeled h).of fun d hd => ⟨hd.1 ▸ eq_of_beq hcolon,hd.2⟩
  · exact .here (expressionStatement h).facing

theorem blockItems : Carries (Tally tokens owed held) (blockItems g) fun ts =>
    Facing (.punct .closeBrace) (Tally tokens owed (ts ++ held)) := by
  refine current.bind fun t => ?_
  split
  · next hkind => exact pure_facing hkind (List.Subset.refl _)
  · exact fail
  · refine (statement h).facing.bind fun _ => h.blockItems.bind fun _ => ?_
    exact pure_facing rfl (by grind)

theorem caseItems : AddsAll tokens owed held (caseItems g) := by
  refine current.bind fun t => .facing ?_
  split
  · exact pure (List.Subset.refl _)
  · exact pure (List.Subset.refl _)
  · exact pure (List.Subset.refl _)
  · exact fail
  · exact (statement h).bind fun _ => h.caseItems.bind fun _ => pure (by grind)

theorem programItems : Carries (Tally tokens owed held) (programItems g) fun ts =>
    Facing .endOfInput (Tally tokens owed (ts ++ held)) := by
  refine current.bind fun t => ?_
  split
  · next hkind => exact pure_facing hkind (List.Subset.refl _)
  · refine (statement h).facing.bind fun _ => h.programItems.bind fun _ => ?_
    exact pure_facing rfl (by grind)

end
end Carries

theorem Productions.tallied_none : Productions.none.Tallied := by
  constructor
  case layer => exact ⟨0,rfl⟩
  all_goals
    intros
    exact .unexpected

theorem Productions.Tallied.step {g : Productions} (h : g.Tallied) : g.step.Tallied where
  layer := by
    obtain ⟨n,rfl⟩ := h.layer
    exact ⟨n + 1,rfl⟩
  expression := .expression h
  sequenceTail := .sequenceTail h
  assignment := .assignment h
  binary := .binary h
  binaryTail := .binaryTail h
  unary := .unary h
  accessTail := .accessTail h
  construct := .construct h
  constructTail := .constructTail h
  arguments := .arguments h
  elements := .elements h
  properties := .properties h
  parameters := .parameters h
  declarators := .declarators h
  statement := .statement h
  blockItems := .blockItems h
  caseItems := .caseItems h
  cases := .cases h
  programItems := .programItems h

theorem tallied_productions (n : Nat) : (productions n).Tallied := by
  induction n with
  | zero => exact Productions.tallied_none
  | succ n ih => exact ih.step

end ScriptLint.Grammar
