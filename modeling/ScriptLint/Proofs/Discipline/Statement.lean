import ScriptLint.Proofs.Discipline.Expression

/-! The productions of statements, judged over productions that are judged, and with them all
productions: as often as they are unrolled, so many tokens may be ahead. -/
namespace ScriptLint.Grammar

lemma Cursor.ne_end_of_declares {c : Cursor} {kind : VariableKind} (h : c.declares? = some kind) :
    c.current.kind ≠ .endOfInput := by
  intro hend
  unfold Cursor.declares? at h
  rw [hend] at h
  cases h

namespace Discipline.Judges
variable {A : Discipline} {g g' : Productions} {n k b : Int} (hg : g.Judged A n g')
include hg

section
variable (hk : k ≤ n)
include hk

theorem parenthesized : A.Passes k b A.tree (parenthesized g) (parenthesized g') 3 5 := by
  refine expectPunct.bind fun _ => (hg.expression (by omega)).bind fun _ => ?_
  exact expectPunct.bind fun _ => pure.mono (by omega)

theorem declarator {inHead : Bool} :
    A.Passes k b A.tree (declarator g inHead) (declarator g' inHead) 1 0 := by
  refine start.bind fun _ => bindingName.bind fun _ => eatPunct_ite ?_ (finish.mono (by omega))
  exact (hg.assignment (by omega)).bind fun _ => finish.mono (by omega)

theorem declarators {inHead : Bool} :
    A.Passes k b (List.map A.tree) (declarators g inHead) (declarators g' inHead) 1 0 := by
  refine (declarator hg hk).bind fun _ => eatPunct_ite ?_ pure
  exact (hg.declarators (by omega)).bind fun _ => pure.mono (by omega)

theorem forSteps {start : Nat} {head : Option Tree} :
    A.Passes k b A.tree (forSteps g start head) (forSteps g' (A.start start) (head.map A.tree))
      1 1 := by
  refine expectPunct.bind fun _ => atPunct.bind fun _ => ?_
  extract_lets rest rest'
  have hrest (test : Option Tree) : A.Judges (Left (k - 1) (b - 2)) A.tree (rest test)
      (rest' (test.map A.tree)) fun _ => Left (k - 1) (b - 1) := by
    refine expectPunct.bind fun _ => atPunct.bind fun _ => ?_
    extract_lets tail tail'
    have htail (step : Option Tree) : A.Judges (Left (k - 1 - 1) (b - 2 - 2)) A.tree (tail step)
        (tail' (step.map A.tree)) fun _ => Left (k - 1) (b - 1) := by
      refine expectPunct.bind fun _ => (hg.statement (by omega)).bind fun _ => ?_
      exact finish.mono (by omega)
    refine .ite ((pure (f := Option.map A.tree)).bind htail) ?_
    exact ((hg.expression (by omega)).some.mono (by omega)).bind htail
  refine .ite ((pure (f := Option.map A.tree)).bind hrest) ?_
  exact ((hg.expression (by omega)).some.mono (by omega)).bind hrest

omit hg hk in
theorem catchParameter :
    A.Passes k b (Option.map A.tree) catchParameter catchParameter 0 0 := by
  refine eatPunct_ite ?_ (pure.mono (by omega))
  refine bindingName.bind fun _ => expectPunct.bind fun _ => ?_
  exact pure.mono (by omega)

theorem catchClause :
    A.Passes k b (Option.map A.tree) (catchClause g) (catchClause g') 0 0 := by
  refine start.bind fun _ => eatWord_ite ?_ (pure.mono (by omega))
  refine catchParameter.bind fun _ => (block hg (by omega)).bind fun _ => ?_
  exact finish.some.mono (by omega)

theorem caseBody {start : Nat} {test : Option Tree} {hasDefault : Bool} :
    A.Passes k b (List.map A.tree) (caseBody g start test hasDefault)
      (caseBody g' (A.start start) (test.map A.tree) hasDefault) 0 0 := by
  refine expectPunct.bind fun _ => (hg.caseItems (by omega)).bind fun _ => finish.bind fun _ => ?_
  exact (hg.cases (by omega)).bind fun _ => pure.mono (by omega)

theorem cases {hasDefault : Bool} :
    A.Passes k b (List.map A.tree) (cases g hasDefault) (cases g' hasDefault) 0 0 := by
  refine start.bind fun _ => current.bind fun t => ?_
  rw [A.kind_token]
  split
  · exact .facing (advance_le.bind fun _ => pure.mono (by omega))
  next hkind =>
    refine (advance (by simp [hkind])).bind fun _ => (hg.expression (by omega)).bind fun _ => ?_
    exact (caseBody hg (by omega)).mono (by omega)
  next hkind =>
    refine .ite (fail fun _ => trivial) ((advance (by simp [hkind])).bind fun _ => ?_)
    exact (caseBody hg (by omega)).mono (by omega)
  · exact unexpected

theorem labeled : A.Passes k b A.tree (labeled g) (labeled g') 1 0 := by
  refine start.bind fun _ => bindingName.bind fun _ => advance_le.bind fun _ => ?_
  exact (hg.statement (by omega)).bind fun _ => finish.mono (by omega)

end

section
variable {kind : TokenKind} (hkind : kind ≠ .endOfInput) (hk : k ≤ n)
include hkind hk

theorem declarationHead {declared : VariableKind} {inHead : Bool} :
    A.PassesAt kind k b (Prod.map A.start (Shape.map A.tree)) (declarationHead g declared inHead)
      (declarationHead g' declared inHead) 1 2 := by
  refine start.bind fun _ => (advance hkind).bind fun _ => (hg.declarators (by omega)).bind fun _ => ?_
  exact pure.mono (by omega)

theorem variableStatement {declared : VariableKind} :
    A.PassesAt kind k b A.tree (variableStatement g declared) (variableStatement g' declared) 1 0 := by
  refine (declarationHead hg hkind hk).bind fun _ => endStatement.bind fun _ => ?_
  exact finish.mono (by omega)

theorem ifStatement : A.PassesAt kind k b A.tree (ifStatement g) (ifStatement g') 1 0 := by
  refine start.bind fun _ => (advance hkind).bind fun _ => (parenthesized hg (by omega)).bind fun _ => ?_
  refine (hg.statement (by omega)).bind fun _ => eatWord.bind fun _ => .ite ?_ ?_
  · exact (hg.statement (by omega)).some.bind fun _ => finish.mono (by omega)
  · exact (pure (f := Option.map A.tree)).bind fun _ => finish.mono (by omega)

theorem whileLoop : A.PassesAt kind k b A.tree (whileLoop g) (whileLoop g') 1 0 := by
  refine start.bind fun _ => (advance hkind).bind fun _ => (parenthesized hg (by omega)).bind fun _ => ?_
  exact (hg.statement (by omega)).bind fun _ => finish.mono (by omega)

theorem doWhile : A.PassesAt kind k b A.tree (doWhile g) (doWhile g') 1 0 := by
  refine start.bind fun _ => (advance hkind).bind fun _ => (hg.statement (by omega)).bind fun _ => ?_
  refine expectWord.bind fun _ => (parenthesized hg (by omega)).bind fun _ => ?_
  exact eatPunct.bind fun _ => finish.mono (by omega)

theorem withStatement : A.PassesAt kind k b A.tree (withStatement g) (withStatement g') 1 0 := by
  refine start.bind fun _ => (advance hkind).bind fun _ => (parenthesized hg (by omega)).bind fun _ => ?_
  exact (hg.statement (by omega)).bind fun _ => finish.mono (by omega)

theorem returnStatement : A.PassesAt kind k b A.tree (returnStatement g) (returnStatement g') 1 0 := by
  refine start.bind fun _ => read.bind fun _ => .ite ?_ (fail fun _ => trivial)
  refine (advance hkind).bind fun _ => current.bind fun t => .facing ?_
  rw [A.kind_token,A.newlineBefore_token]
  extract_lets bare tail tail'
  have htail (argument : Option Tree) : A.Judges (Left (k - 1) (b - 2)) A.tree (tail argument)
      (tail' (argument.map A.tree)) fun _ => Left (k - 1) (b - 0) :=
    endStatement.bind fun _ => finish.mono (by omega)
  refine .ite ((pure (f := Option.map A.tree)).bind htail) ?_
  exact ((hg.expression (by omega)).some.mono (by omega)).bind htail

omit hg hk in
theorem jump {shape : Option Tree → Shape Tree}
    (hs : ∀ label, (shape label).map A.tree = shape (label.map A.tree)) :
    A.PassesAt kind k b A.tree (jump shape) (jump shape) 1 0 := by
  refine start.bind fun _ => (advance hkind).bind fun _ => current.bind fun t => .facing ?_
  rw [A.kind_token,A.newlineBefore_token]
  extract_lets tail tail'
  have htail (label : Option Tree) : A.Judges (Left (k - 1) (b - 2)) A.tree (tail label)
      (tail' (label.map A.tree)) fun _ => Left (k - 1) (b - 0) := by
    refine endStatement.bind fun _ => ?_
    rw [← hs]
    exact finish.mono (by omega)
  split
  · refine .ite ((pure (f := Option.map A.tree)).bind htail) ?_
    exact (bindingName.some.mono (by omega)).bind htail
  · exact (pure (f := Option.map A.tree)).bind htail

theorem throwStatement : A.PassesAt kind k b A.tree (throwStatement g) (throwStatement g') 1 0 := by
  refine start.bind fun _ => (advance hkind).bind fun _ => current.bind fun _ => .facing ?_
  rw [A.newlineBefore_token]
  refine .ite (fail fun _ => trivial) ?_
  refine (hg.expression (by omega)).bind fun _ => endStatement.bind fun _ => ?_
  exact finish.mono (by omega)

theorem tryStatement : A.PassesAt kind k b A.tree (tryStatement g) (tryStatement g') 1 0 := by
  refine start.bind fun _ => (advance hkind).bind fun _ => (block hg (by omega)).bind fun _ => ?_
  refine (catchClause hg (by omega)).bind fun handler => eatWord.bind fun _ => ?_
  extract_lets tail tail'
  have htail (finalizer : Option Tree) : A.Judges (Left (k - 1) (b - 2)) A.tree (tail finalizer)
      (tail' (finalizer.map A.tree)) fun _ => Left (k - 1) (b - 0) := by
    simp only [tail,tail',Option.isNone_map]
    exact .ite (fail fun _ => trivial) (finish.mono (by omega))
  refine .ite (((block hg (by omega)).some.mono (by omega)).bind htail) ?_
  exact ((pure (f := Option.map A.tree)).mono (by omega)).bind htail

omit hkind hk in
theorem forHead (h : k < n) : A.Passes k b (Option.map A.tree) (forHead g) (forHead g') 0 0 := by
  refine atPunct.bind fun _ => .ite (pure.mono (by omega)) (get.bind fun c => ?_)
  rw [A.declares_cursor]
  split
  next hdeclares =>
    refine (declarationHead hg (Cursor.ne_end_of_declares hdeclares) (by omega)).bind fun _ => ?_
    exact finish.bind fun _ => pure.mono (by omega)
  · exact .facing ((hg.expression h).bind fun _ => pure.mono (by omega))

/-- What is bound by a loop over members is read by the time it is refused. -/
theorem forMembers {start : Nat} {left : Tree} {shape : Tree → Tree → Tree → Shape Tree}
    {right right' : Parser Tree} (hright : A.Passes (k - 1) (b - 2) A.tree right right' 1 1)
    (hs : ∀ t u v, (shape t u v).map A.tree = shape (A.tree t) (A.tree u) (A.tree v)) :
    A.Judges (Facing kind fun c => Left k b c ∧ A.Behind left c) A.tree
      (forMembers g start left shape right)
      (forMembers g' (A.start start) (A.tree left) shape right') fun _ => Left (k - 1) (b - 1) := by
  unfold Grammar.forMembers
  rw [A.isLoopTarget_tree,A.start_tree]
  refine .ite ?_ (A.judges_failAt (fun _ => trivial) fun c hc => hc.2.2)
  refine .of ((advance hkind).bind fun _ => hright.bind fun _ => ?_) fun c hc => ⟨hc.1,hc.2.1⟩
  refine expectPunct.bind fun _ => (hg.statement (by omega)).bind fun body => ?_
  rw [← hs]
  exact finish.mono (by omega)

theorem switchStatement : A.PassesAt kind k b A.tree (switchStatement g) (switchStatement g') 1 0 := by
  refine start.bind fun _ => (advance hkind).bind fun _ => (parenthesized hg (by omega)).bind fun _ => ?_
  refine expectPunct.bind fun _ => (hg.cases (by omega)).bind fun _ => ?_
  exact finish.mono (by omega)

end

variable (hl : g.Retraced A)
include hl

theorem expressionStatement (hk : k ≤ n) :
    A.Passes k b A.tree (expressionStatement g) (expressionStatement g') 1 0 := by
  refine start.bind fun _ => (expression hg hk hl).bind fun _ => endStatement.bind fun _ => ?_
  exact finish.mono (by omega)

section
variable {kind : TokenKind} (hkind : kind ≠ .endOfInput) (hk : k ≤ n)
include hkind hk

theorem forLoop : A.PassesAt kind k b A.tree (forLoop g) (forLoop g') 1 0 := by
  refine start.bind fun n => (advance hkind).bind fun _ => expectPunct.bind fun _ => ?_
  refine (A.judges_leaves (forHead hg (by omega)) hl.forHead).bind fun head => ?_
  refine current.bind fun t => ?_
  rw [A.kind_token]
  have hsteps : A.Judges (Facing t.kind fun c => Left (k - 1 - 1 - 0) (b - 2 - 2 - 0) c ∧
      ∀ t ∈ head.toList, A.Behind t c) A.tree (Grammar.forSteps g n head)
      (Grammar.forSteps g' (A.start n) (head.map A.tree)) fun _ => Left (k - 1) (b - 0) :=
    .of ((forSteps hg (by omega)).mono (by omega)) fun c hc => hc.2.1
  cases head with
  | none => exact hsteps
  | some left =>
    have hleft (c : Cursor) (hc : Facing t.kind (fun c => Left (k - 1 - 1 - 0) (b - 2 - 2 - 0) c ∧
        ∀ t ∈ (Option.some left).toList, A.Behind t c) c) :
        Facing t.kind (fun c => Left (k - 1 - 1 - 0) (b - 2 - 2 - 0) c ∧ A.Behind left c) c :=
      ⟨hc.1,hc.2.1,hc.2.2 left (by simp)⟩
    by_cases hof : t.kind = .name "of"
    · simp only [hof,Option.map_some] at hleft ⊢
      refine .of (.mono (forMembers hg (by simp) (by omega) (hg.assignment (by omega)) ?_)
        (by omega)) hleft
      exact fun _ _ _ => rfl
    by_cases hin : t.kind = .reserved .kwIn
    · simp only [hin,Option.map_some] at hleft ⊢
      refine .of (.mono (forMembers hg (by simp) (by omega) (hg.expression (by omega)) ?_)
        (by omega)) hleft
      exact fun _ _ _ => rfl
    split
    next hk => exact absurd hk hof
    next hk => exact absurd hk hin
    next =>
      split
      next hk => exact absurd hk hof
      next hk => exact absurd hk hin
      next => exact hsteps

theorem wordStatement {w : Keyword} :
    A.PassesAt kind k b A.tree (wordStatement g w) (wordStatement g' w) 1 0 := by
  unfold Grammar.wordStatement
  split
  · exact variableStatement hg hkind hk
  · exact variableStatement hg hkind hk
  · exact .facing ((function hg hk).mono (by omega))
  · exact ifStatement hg hkind hk
  · exact forLoop hg hl hkind hk
  · exact whileLoop hg hkind hk
  · exact doWhile hg hkind hk
  · exact returnStatement hg hkind hk
  · exact jump hkind fun _ => rfl
  · exact jump hkind fun _ => rfl
  · exact throwStatement hg hkind hk
  · exact tryStatement hg hkind hk
  · exact switchStatement hg hkind hk
  · exact withStatement hg hkind hk
  · refine start.bind fun _ => (advance hkind).bind fun _ => endStatement.bind fun _ => ?_
    exact finish.mono (by omega)
  · exact fail fun _ => trivial
  · exact fail fun _ => trivial
  · exact fail fun _ => trivial
  · exact .facing (expressionStatement hg hl hk)

end

section
variable (hk : k ≤ n)
include hk

theorem statement : A.Passes k b A.tree (statement g) (statement g') 1 0 := by
  refine .nested (get.bind fun c => ?_)
  rw [A.declares_cursor,A.next_cursor,A.current_cursor,A.kind_token,A.kind_token]
  split
  · exact .facing ((block hg hk).mono (by omega))
  next hkind =>
    exact start.bind fun _ => (advance (by simp [hkind])).bind fun _ => finish.mono (by omega)
  next hkind => exact wordStatement hg hl (by simp [hkind]) hk
  · split
    next hdeclares => exact variableStatement hg (Cursor.ne_end_of_declares hdeclares) hk
    · exact .facing (.ite (labeled hg hk) (expressionStatement hg hl hk))
  · exact .facing (expressionStatement hg hl hk)

theorem blockItems : A.Passes k b (List.map A.tree) (blockItems g) (blockItems g') 0 0 := by
  refine current.bind fun t => .facing ?_
  rw [A.kind_token]
  split
  · exact pure.mono (by omega)
  · exact fail fun _ => trivial
  · refine (statement hg hl hk).bind fun _ => (hg.blockItems (by omega)).bind fun _ => ?_
    exact pure.mono (by omega)

theorem caseItems : A.Passes k b (List.map A.tree) (caseItems g) (caseItems g') 0 0 := by
  refine current.bind fun t => .facing ?_
  rw [A.kind_token]
  split
  · exact pure.mono (by omega)
  · exact pure.mono (by omega)
  · exact pure.mono (by omega)
  · exact fail fun _ => trivial
  · refine (statement hg hl hk).bind fun _ => (hg.caseItems (by omega)).bind fun _ => ?_
    exact pure.mono (by omega)

theorem programItems : A.Passes k b (List.map A.tree) (programItems g) (programItems g') 0 0 := by
  refine current.bind fun t => .facing ?_
  rw [A.kind_token]
  split
  · exact pure.mono (by omega)
  · refine (statement hg hl hk).bind fun _ => (hg.programItems (by omega)).bind fun _ => ?_
    exact pure.mono (by omega)

end
end Discipline.Judges

namespace Productions.Judged
variable {A : Discipline} {n : Int} {g g' : Productions}

/-- Any productions are judged where fewer than no tokens are ahead. -/
theorem zero : g.Judged A 0 g' := by
  constructor <;> exact .of_neg

/-- What is unrolled once more is judged with one more token ahead. -/
theorem step (hg : g.Judged A n g') (hl : g.Retraced A) : g.step.Judged A (n + 1) g'.step where
  expression h := .expression hg (by omega) hl
  sequenceTail h := .sequenceTail hg (by omega)
  assignment h := .assignment hg (by omega) hl
  binary h := .binary hg (by omega)
  binaryTail h := .binaryTail hg (by omega)
  unary h := .unary hg (by omega)
  accessTail h := .accessTail hg (by omega)
  construct h := .construct hg (by omega)
  constructTail h := .constructTail hg (by omega)
  arguments h := .arguments hg (by omega) hl
  elements h := .elements hg (by omega) hl
  properties h := .properties hg (by omega)
  parameters h := .parameters hg (by omega)
  declarators h := .declarators hg (by omega)
  statement h := .statement hg hl (by omega)
  blockItems h := .blockItems hg hl (by omega)
  caseItems h := .caseItems hg hl (by omega)
  cases h := .cases hg (by omega)
  programItems h := .programItems hg hl (by omega)

end Productions.Judged

/-- The productions unrolled `n` times over others, which they call at the bottom. -/
def Productions.unroll (bottom : Productions) : (n : Nat) → Productions
  | 0 => bottom
  | n + 1 => (bottom.unroll n).step

theorem productions_eq_unroll (n : Nat) : productions n = Productions.none.unroll n := by
  induction n with
  | zero => rfl
  | succ n ih => exact congrArg Productions.step ih

/-- Where fewer than `n` tokens are ahead, nothing is called at the bottom. -/
theorem judged_unroll {A : Discipline} {bottom : Productions}
    (hl : ∀ n, (bottom.unroll n).Retraced A) (bottom' : Productions) (n : Nat) :
    (bottom.unroll n).Judged A n (bottom'.unroll n) := by
  induction n with
  | zero => exact .zero
  | succ n ih => exact ih.step (hl n)

theorem judged_productions {A : Discipline} (hl : ∀ n, (productions n).Retraced A) (n : Nat) :
    (productions n).Judged A n (productions n) := by
  simp only [productions_eq_unroll] at hl ⊢
  exact judged_unroll hl _ n

end ScriptLint.Grammar
