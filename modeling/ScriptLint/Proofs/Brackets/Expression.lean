import Mathlib
import ScriptLint.Proofs.Brackets.Tally

/-! The productions of functions and expressions close the brackets they open, and an arrow is
passed only by an arrow function. -/
namespace ScriptLint.Grammar

section
variable {k : TokenKind}

lemma isIdle_of_operator {p : Punct} (h : (UnaryOperator.ofPunct? p).isSome ||
    (UpdateOperator.ofPunct? p).isSome || (BinaryOperator.ofPunct? p).isSome ||
    (AssignmentOperator.ofPunct? p).isSome) : (TokenKind.punct p).isIdle = true := by
  revert h
  cases p <;> decide

theorem isIdle_of_unaryOperator {o : UnaryOperator} (h : unaryOperator? k = some o) :
    k.isIdle = true := by
  cases k with
  | punct p => exact isIdle_of_operator (by simp [show UnaryOperator.ofPunct? p = some o from h])
  | reserved w => rfl
  | _ => cases h

theorem isIdle_of_updateOperator {o : UpdateOperator} (h : updateOperator? k = some o) :
    k.isIdle = true := by
  cases k with
  | punct p => exact isIdle_of_operator (by simp [show UpdateOperator.ofPunct? p = some o from h])
  | _ => cases h

theorem isIdle_of_binaryOperator {inHead : Bool} {o : BinaryOperator}
    (h : binaryOperator? inHead k = some o) : k.isIdle = true := by
  cases k with
  | punct p => exact isIdle_of_operator (by simp [show BinaryOperator.ofPunct? p = some o from h])
  | reserved w => rfl
  | _ => cases h

theorem isIdle_of_assignmentOperator {o : AssignmentOperator} (h : assignmentOperator? k = some o) :
    k.isIdle = true := by
  cases k with
  | punct p =>
    exact isIdle_of_operator (by simp [show AssignmentOperator.ofPunct? p = some o from h])
  | _ => cases h

theorem isIdle_of_startsAccessor {c : Cursor} (h : c.startsAccessor = true) :
    c.current.kind.isIdle = true := by
  simp only [Cursor.startsAccessor,Bool.and_eq_true,Bool.or_eq_true,beq_iff_eq] at h
  obtain hkind | hkind := h.1
  · rw [hkind]
    rfl
  · rw [hkind]
    rfl

end

/-- Productions that close the brackets they open and account for the arrows they pass. They are
among those that a program is read by. -/
structure Productions.Tallied (g : Productions) : Prop where
  layer : ∃ n, g = productions n
  expression {tokens owed held} {inHead : Bool} : Adds tokens owed held (g.expression inHead)
  sequenceTail {tokens owed held} {inHead : Bool} : AddsAll tokens owed held (g.sequenceTail inHead)
  assignment {tokens owed held} {inHead : Bool} : Adds tokens owed held (g.assignment inHead)
  binary {tokens owed held} {least : Nat} {inHead : Bool} :
    Adds tokens owed held (g.binary least inHead)
  binaryTail {tokens owed held} {start least : Nat} {inHead : Bool} {left : Tree} :
    Carries (Tally tokens owed (left :: held)) (g.binaryTail start least inHead left) fun t =>
      Tally tokens owed (t :: held)
  unary {tokens owed held} : Adds tokens owed held g.unary
  accessTail {tokens owed held} {start : Nat} {owner : Tree} :
    Carries (Tally tokens owed (owner :: held)) (g.accessTail start owner) fun t =>
      Tally tokens owed (t :: held)
  construct {tokens owed held} : Adds tokens owed held g.construct
  constructTail {tokens owed held} {start : Nat} {callee : Tree} :
    Carries (Tally tokens owed (callee :: held)) (g.constructTail start callee) fun t =>
      Tally tokens owed (t :: held)
  arguments {tokens owed held} : AddsAll tokens owed held g.arguments
  elements {tokens owed held} : Carries (Tally tokens owed held) g.elements fun ts =>
    Facing (.punct .closeBracket) (Tally tokens owed (ts.filterMap id ++ held))
  properties {tokens owed held} : Carries (Tally tokens owed held) g.properties fun ts =>
    Facing (.punct .closeBrace) (Tally tokens owed (ts ++ held))
  parameters {tokens owed held} : AddsAll tokens owed held g.parameters
  declarators {tokens owed held} {inHead : Bool} : AddsAll tokens owed held (g.declarators inHead)
  statement {tokens owed held} : Adds tokens owed held g.statement
  blockItems {tokens owed held} : Carries (Tally tokens owed held) g.blockItems fun ts =>
    Facing (.punct .closeBrace) (Tally tokens owed (ts ++ held))
  caseItems {tokens owed held} : AddsAll tokens owed held g.caseItems
  cases {tokens owed held} {hasDefault : Bool} :
    Carries (Tally tokens (.closeBrace :: owed) held) (g.cases hasDefault) fun ts =>
      Tally tokens owed (ts ++ held)
  programItems {tokens owed held} : Carries (Tally tokens owed held) g.programItems fun ts =>
    Facing .endOfInput (Tally tokens owed (ts ++ held))

lemma bindingName_parts {s : Surroundings} {c : Cursor} (hc : c.WellFormed) :
    Yields bindingName s c fun _ d =>
      ∃ x, c.rest = c.current :: d.rest ∧ c.current.kind = .name x := by
  rw [bindingName,yields_bind,yields_start,yields_bind,yields_current]
  split
  · next x hkind =>
    rw [yields_bind,yields_advance,yields_finish]
    exact ⟨x,hc.rest_eq (by simp [hkind]),hkind⟩
  · exact yields_fail
  · exact yields_fail
  · exact yields_failWith

/-- An arrow function that was read from `c` to `e`, in its parts. -/
def ArrowParts (g : Productions) (s : Surroundings) (c : Cursor) (f : Tree) (e : Cursor) : Prop :=
  ∃ params d body b,
    (parameterList g s c = .ok (params,d) ∨
      ∃ param, bindingName s c = .ok (param,d) ∧ params = [param]) ∧
    d.current.kind = .punct .arrow ∧
    (functionBody g s d.advance = .ok (body,b) ∨ g.assignment false s d.advance = .ok (body,b)) ∧
    f.shape = .function .arrow none params body ∧ e = { b with finished := e.finished }

lemma arrowFunction_parts {g : Productions} {s : Surroundings} {c : Cursor} :
    Yields (arrowFunction g) s c (ArrowParts g s c) := by
  rw [arrowFunction,yields_bind,yields_start,yields_bind,yields_atPunct]
  extract_lets tail
  have htail {params : List Tree} {d : Cursor} (hhead : parameterList g s c = .ok (params,d) ∨
      ∃ param, bindingName s c = .ok (param,d) ∧ params = [param]) :
      Yields (tail params) s d (ArrowParts g s c) := by
    simp only [tail,yields_bind,yields_expectPunct,yields_atPunct,yields_ite]
    intro hkind
    constructor
    · intro _ body b hbody
      exact yields_finish.mpr ⟨params,d,body,b,hhead,hkind,.inl hbody,rfl,rfl⟩
    · intro _ body b hbody
      exact yields_finish.mpr ⟨params,d,body,b,hhead,hkind,.inr hbody,rfl,rfl⟩
  rw [yields_ite,yields_bind,yields_bind]
  constructor
  · intro _ params d hparams
    exact htail (.inl hparams)
  · intro _ param d hparam
    rw [yields_bind,yields_pure]
    exact htail (.inr ⟨param,hparam,rfl⟩)

namespace Carries
variable {g : Productions} {tokens : List Token} {owed : List Punct} {held : List Tree}

section
variable (h : g.Tallied)
include h

theorem parameter : Adds tokens owed held (parameter g) := by
  refine start.bind fun _ => (eatPunct rfl).bind fun _ => .ite ?_ ?_
  · exact bindingName.bind fun _ => finish (by grind [Shape.children])
  · refine bindingName.bind fun _ => (eatPunct rfl).bind fun _ => .ite ?_ (pure (by simp))
    exact h.assignment.bind fun _ => finish (by grind [Shape.children])

theorem parameters : AddsAll tokens owed held (parameters g) := by
  refine atPunct.bind fun _ => .ite (pure (by simp)) ?_
  refine (parameter h).bind fun _ => (eatPunct rfl).bind fun _ => .ite ?_ (pure (by simp))
  exact h.parameters.bind fun _ => pure (by grind)

theorem parameterList : AddsAll tokens owed held (parameterList g) := enclosed rfl h.parameters

theorem block : Adds tokens owed held (block g) := by
  refine start.bind fun _ => (expectPunct (.opening rfl rfl)).bind fun _ => ?_
  refine h.blockItems.bind fun _ => (advance rfl (.closing rfl rfl)).bind fun _ => ?_
  exact finish (by grind [Shape.children])

theorem functionBody : Adds tokens owed held (functionBody g) := (block h).insideFunction

theorem function {kind : FunctionKind} : Adds tokens owed held (function g kind) := by
  refine start.bind fun _ => expectWord.bind fun _ => (eatPunct rfl).bind fun _ => ?_
  -- Whether there is a name is settled in several branches; the rest is the same in all of them.
  extract_lets tail rest
  have htail (name : Option Tree) : Carries (Tally tokens owed (name.toList ++ held)) (tail name)
      fun t => Tally tokens owed (t :: held) := by
    refine (parameterList h).bind fun _ => (functionBody h).bind fun _ => ?_
    exact finish (by grind [Shape.children])
  have hrest (named : Bool) : Adds tokens owed held (rest named) :=
    .ite (bindingName.some.bind htail) (none.bind htail)
  have hpure (named : Bool) : Carries (Tally tokens owed held) (Pure.pure named) fun _ =>
      Tally tokens owed held := pure (List.Subset.refl _)
  refine .ite ((hpure _).bind hrest) (current.bind fun t => .facing ?_)
  split <;> exact (hpure _).bind hrest

theorem arrowFunction : Carries (fun c => c.startsArrow = true ∧ Tally tokens owed held c)
    (arrowFunction g) fun t => Tally tokens owed (t :: held) := by
  intro s c hc f e hrun
  obtain ⟨hstarts,hc⟩ := hc
  obtain ⟨n,hlayer⟩ := h.layer
  obtain ⟨params,d,body,b,hhead,harrow,hbody,hshape,hend⟩ := arrowFunction_parts f e hrun
  have hd : Tally tokens owed (params ++ held) d := by
    cases hhead with
    | inl hparams => exact parameterList h s c hc params d hparams
    | inr hparam =>
      obtain ⟨param,hparam,rfl⟩ := hparam
      exact bindingName s c hc param d hparam
  -- The body is counted on its own: the arrow before it belongs to a function only when it is read.
  have hb : Tally d.advance.rest [] [body] b := by
    have hadvance := Tally.start hd.wellFormed.advance
    cases hbody with
    | inl hbody => exact functionBody h s _ hadvance body b hbody
    | inr hbody => exact h.assignment s _ hadvance body b hbody
  have hled : Led tokens (f :: held) d.rest := by
    have hself : f ∈ f.preorder := Tree.mem_preorder.mpr (.inl rfl)
    refine ⟨c,n,s,f,e,hc.within,hstarts,hlayer ▸ hrun,⟨f,.head _,hself⟩,?_⟩
    cases hhead with
    | inl hparams => exact .inr ⟨params,d,body,hlayer ▸ hparams,rfl,hshape⟩
    | inr hparam =>
      obtain ⟨param,hparam,-⟩ := hparam
      exact .inl ⟨c.current,bindingName_parts hc.wellFormed param d hparam⟩
  obtain ⟨i,span,shape⟩ := f
  obtain rfl : shape = .function .arrow .none params body := hshape
  rw [hend]
  refine (hd.arrow harrow hb hled (.node ?_) (.node ?_)).finished _
  all_goals grind [Shape.children]

theorem argumentList : AddsAll tokens owed held (argumentList g) := enclosed rfl h.arguments

omit h in
theorem literal {k : TokenKind} {kind : LiteralKind} {raw : String} (hk : k.isIdle = true) :
    AddsAt k tokens owed held (literal kind raw) :=
  start.bind fun _ => (advance rfl (.idle hk)).bind fun _ => finish (by grind)

theorem array : Adds tokens owed held (array g) := by
  refine start.bind fun _ => (expectPunct (.opening rfl rfl)).bind fun _ => ?_
  refine h.elements.bind fun _ => (advance rfl (.closing rfl rfl)).bind fun _ => ?_
  exact finish (by grind [Shape.children])

theorem object : Adds tokens owed held (object g) := by
  refine start.bind fun _ => (expectPunct (.opening rfl rfl)).bind fun _ => ?_
  refine h.properties.bind fun _ => (advance rfl (.closing rfl rfl)).bind fun _ => ?_
  exact finish (by grind [Shape.children])

theorem propertyKey : Carries (Tally tokens owed held) (propertyKey g) fun key =>
    Tally tokens owed (key.1 :: held) := by
  refine current.bind fun t => ?_
  split
  · next hkind =>
    refine (advance hkind (.opening rfl rfl)).bind fun _ => h.assignment.bind fun _ => ?_
    exact (expectPunct (.closing rfl rfl)).bind fun _ => pure (List.Subset.refl _)
  · exact propertyName.facing.bind fun _ => pure (List.Subset.refl _)
  · exact propertyName.facing.bind fun _ => pure (List.Subset.refl _)
  · next hkind => exact (literal (hkind ▸ rfl)).bind fun _ => pure (List.Subset.refl _)
  · next hkind => exact (literal (hkind ▸ rfl)).bind fun _ => pure (List.Subset.refl _)
  · exact unexpected

theorem propertyValue {start : Nat} {accessor : Bool} {key : Tree} {computed : Bool} :
    Carries (Tally tokens owed (key :: held)) (propertyValue g start accessor key computed) fun t =>
      Tally tokens owed (t :: held) := by
  refine current.bind fun t => .ite_of ?_ (.facing (.ite ?_ (.ite (finish ?_) unexpected)))
  · intro hcolon
    have hkind : t.kind = .punct .colon := eq_of_beq (Bool.and_eq_true_iff.mp hcolon).2
    refine (advance hkind (.idle rfl)).bind fun _ => h.assignment.bind fun _ => ?_
    exact finish (by grind [Shape.children])
  · refine (parameterList h).bind fun _ => (functionBody h).bind fun _ => ?_
    refine bind (M := fun value => Tally tokens owed (value :: key :: held)) (finish ?_) fun _ =>
      finish ?_
    all_goals grind [Shape.children]
  · grind [Shape.children]

theorem property : Adds tokens owed held (property g) := by
  refine start.bind fun _ => (eatPunct rfl).bind fun _ => .ite ?_ (get.bind fun c => ?_)
  · exact h.assignment.bind fun _ => finish (by grind [Shape.children])
  · extract_lets accessor tail
    have htail (u : Unit) : Adds tokens owed held (tail u) :=
      (propertyKey h).bind fun _ => propertyValue h
    refine .here (.ite_of (fun haccessor => ?_) (htail ()).facing)
    exact (advance rfl (.idle (isIdle_of_startsAccessor haccessor))).bind htail

theorem properties : Carries (Tally tokens owed held) (properties g) fun ts =>
    Facing (.punct .closeBrace) (Tally tokens owed (ts ++ held)) := by
  refine atPunct_ite (pure_facing rfl (List.Subset.refl _)) ?_
  refine (property h).bind fun _ => atPunct_ite (pure_facing rfl (by grind)) ?_
  refine (expectPunct (.idle rfl)).bind fun _ => h.properties.bind fun _ => ?_
  exact pure_facing rfl (by grind)

theorem primary : Adds tokens owed held (primary g) := by
  refine start.bind fun _ => current.bind fun t => ?_
  split
  · next hkind => exact (advance hkind (.idle rfl)).bind fun _ => finish (by grind)
  · next hkind =>
    split
    · exact (function h).facing
    · exact (advance hkind (.idle rfl)).bind fun _ => finish (by grind)
    · exact literal (hkind ▸ rfl)
    · exact literal (hkind ▸ rfl)
    · exact literal (hkind ▸ rfl)
    · exact fail
    · exact fail
    · exact fail
    · exact unexpected
  · next hkind => exact literal (hkind ▸ rfl)
  · next hkind => exact literal (hkind ▸ rfl)
  · next hkind => exact literal (hkind ▸ rfl)
  · next hkind =>
    refine (advance hkind (.opening rfl rfl)).bind fun _ => h.expression.bind fun _ => ?_
    exact (expectPunct (.closing rfl rfl)).bind fun _ => pure (List.Subset.refl _)
  · exact (array h).facing
  · exact (object h).facing
  · exact fail
  · exact unexpected

/-- The bracket before a computed key is closed after it. -/
theorem computedKey : Carries (Tally tokens (.closeBracket :: owed) held) (computedKey g) fun t =>
    Tally tokens owed (t :: held) := by
  refine h.expression.bind fun _ => ?_
  exact (expectPunct (.closing rfl rfl)).bind fun _ => pure (List.Subset.refl _)

theorem constructTail {start : Nat} {callee : Tree} :
    Carries (Tally tokens owed (callee :: held)) (constructTail g start callee) fun t =>
      Tally tokens owed (t :: held) := by
  refine (eatPunct rfl).bind fun _ => .ite ?_ (eatPunct_ite (.opening rfl rfl) ?_ (pure ?_))
  · refine propertyName.bind fun _ => (finish ?_).bind fun _ => h.constructTail
    grind [Shape.children]
  · refine (computedKey h).bind fun _ => (finish ?_).bind fun _ => h.constructTail
    grind [Shape.children]
  · exact List.Subset.refl _

theorem construct : Adds tokens owed held (construct g) := by
  refine start.bind fun n => expectWord.bind fun _ => atPunct.bind fun _ => ?_
  refine .ite fail (atWord.bind fun _ => ?_)
  extract_lets rest
  have hrest (callee : Tree) : Carries (Tally tokens owed (callee :: held)) (rest callee)
      fun t => Tally tokens owed (t :: held) := by
    refine (constructTail h).bind fun callee => atPunct.bind fun _ => .ite ?_ ?_
    · exact (argumentList h).bind fun _ => finish (by grind [Shape.children])
    · refine bind (M := fun arguments => Tally tokens owed (arguments ++ callee :: held)) ?_
        fun _ => finish (by grind [Shape.children])
      exact pure (List.Subset.refl _)
  exact .ite (h.construct.bind hrest) ((primary h).bind hrest)

theorem accessTail {start : Nat} {owner : Tree} :
    Carries (Tally tokens owed (owner :: held)) (accessTail g start owner) fun t =>
      Tally tokens owed (t :: held) := by
  refine current.bind fun t => ?_
  split
  · next hkind =>
    refine (advance hkind (.idle rfl)).bind fun _ => propertyName.bind fun _ => ?_
    exact (finish (by grind [Shape.children])).bind fun _ => h.accessTail
  · next hkind =>
    refine (advance hkind (.idle rfl)).bind fun _ => atPunct.bind fun _ => .ite ?_ ?_
    · refine (argumentList h).bind fun _ => ?_
      exact (finish (by grind [Shape.children])).bind fun _ => h.accessTail
    · refine eatPunct_ite (.opening rfl rfl) ?_ ?_
      · refine (computedKey h).bind fun _ => ?_
        exact (finish (by grind [Shape.children])).bind fun _ => h.accessTail
      · refine propertyName.bind fun _ => ?_
        exact (finish (by grind [Shape.children])).bind fun _ => h.accessTail
  · next hkind =>
    refine (advance hkind (.opening rfl rfl)).bind fun _ => (computedKey h).bind fun _ => ?_
    exact (finish (by grind [Shape.children])).bind fun _ => h.accessTail
  · refine (argumentList h).facing.bind fun _ => ?_
    exact (finish (by grind [Shape.children])).bind fun _ => h.accessTail
  · exact .facing (pure (List.Subset.refl _))

theorem access : Adds tokens owed held (access g) := by
  refine start.bind fun _ => atWord.bind fun _ => .ite ?_ ?_
  · exact (construct h).bind fun _ => accessTail h
  · exact (primary h).bind fun _ => accessTail h

theorem unary : Adds tokens owed held (unary g) := by
  refine .nested (start.bind fun _ => current.bind fun t => ?_)
  split
  · next hoperator =>
    refine (advance rfl (.idle (isIdle_of_unaryOperator hoperator))).bind fun _ => ?_
    exact h.unary.bind fun _ => finish (by grind [Shape.children])
  · next _ hoperator =>
    refine (advance rfl (.idle (isIdle_of_updateOperator hoperator))).bind fun _ => ?_
    exact h.unary.bind fun _ => finish (by grind [Shape.children])
  · refine (access h).facing.bind fun _ => current.bind fun t => ?_
    split
    · next hoperator =>
      refine .ite (.facing (pure (List.Subset.refl _))) ?_
      refine (advance rfl (.idle (isIdle_of_updateOperator hoperator))).bind fun _ => ?_
      exact finish (by grind [Shape.children])
    · exact .facing (pure (List.Subset.refl _))

theorem binaryTail {start least : Nat} {inHead : Bool} {left : Tree} :
    Carries (Tally tokens owed (left :: held)) (binaryTail g start least inHead left) fun t =>
      Tally tokens owed (t :: held) := by
  refine current.bind fun t => ?_
  split
  · next hoperator =>
    refine .ite (.facing (pure (List.Subset.refl _))) ?_
    refine (advance rfl (.idle (isIdle_of_binaryOperator hoperator))).bind fun _ => ?_
    refine h.binary.bind fun _ => (finish ?_).bind fun _ => h.binaryTail
    grind [Shape.children]
  · exact .facing (pure (List.Subset.refl _))

theorem binary {least : Nat} {inHead : Bool} : Adds tokens owed held (binary g least inHead) :=
  start.bind fun _ => (unary h).bind fun _ => binaryTail h

theorem conditional {inHead : Bool} : Adds tokens owed held (conditional g inHead) := by
  refine start.bind fun _ => (binary h).bind fun _ => (eatPunct rfl).bind fun _ => ?_
  refine .ite (h.assignment.bind fun _ => ?_) (pure (List.Subset.refl _))
  refine (expectPunct (.idle rfl)).bind fun _ => h.assignment.bind fun _ => ?_
  exact finish (by grind [Shape.children])

theorem assignment {inHead : Bool} : Adds tokens owed held (assignment g inHead) := by
  refine .nested (get.bind fun c => .ite_of (fun hstarts => ?_) (.here (.facing ?_)))
  · exact (arrowFunction h).of fun d hd => ⟨hd.1 ▸ hstarts,hd.2⟩
  · refine start.bind fun _ => (conditional h).bind fun _ => current.bind fun t => ?_
    split
    · next hoperator =>
      refine .ite ?_ failAt
      refine (advance rfl (.idle (isIdle_of_assignmentOperator hoperator))).bind fun _ => ?_
      exact h.assignment.bind fun _ => finish (by grind [Shape.children])
    · exact .facing (pure (List.Subset.refl _))

theorem sequenceTail {inHead : Bool} : AddsAll tokens owed held (sequenceTail g inHead) := by
  refine (eatPunct rfl).bind fun _ => .ite ?_ (pure (List.Subset.refl _))
  exact h.assignment.bind fun _ => h.sequenceTail.bind fun _ => pure (by grind)

theorem expression {inHead : Bool} : Adds tokens owed held (expression g inHead) := by
  refine start.bind fun _ => (assignment h).bind fun _ => atPunct.bind fun _ => ?_
  refine .ite ((sequenceTail h).bind fun _ => finish ?_) (pure (List.Subset.refl _))
  grind [Shape.children]

theorem spreadOrAssignment : Adds tokens owed held (spreadOrAssignment g) := by
  refine start.bind fun _ => (eatPunct rfl).bind fun _ => .ite ?_ (assignment h)
  exact h.assignment.bind fun _ => finish (by grind [Shape.children])

theorem arguments : AddsAll tokens owed held (arguments g) := by
  refine atPunct.bind fun _ => .ite (pure (List.Subset.refl _)) ?_
  refine (spreadOrAssignment h).bind fun _ => (eatPunct rfl).bind fun _ => .ite ?_ (pure (by grind))
  exact h.arguments.bind fun _ => pure (by grind)

theorem elements : Carries (Tally tokens owed held) (elements g) fun ts =>
    Facing (.punct .closeBracket) (Tally tokens owed (ts.filterMap id ++ held)) := by
  refine atPunct_ite (pure_facing rfl (List.Subset.refl _)) ?_
  refine (eatPunct rfl).bind fun _ => .ite ?_ ?_
  · exact h.elements.bind fun _ => pure_facing rfl (by grind)
  · refine (spreadOrAssignment h).bind fun _ => atPunct_ite (pure_facing rfl (by grind)) ?_
    refine (expectPunct (.idle rfl)).bind fun _ => h.elements.bind fun _ => ?_
    exact pure_facing rfl (by grind)

end
end Carries
end ScriptLint.Grammar
