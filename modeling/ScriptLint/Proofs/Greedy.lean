import ScriptLint.Proofs.Category
import ScriptLint.Proofs.Yields

/-! Which `if` an `else` belongs to. A statement that an `else` may follow has taken it, so that no
statement that is still open is followed by one. -/
namespace ScriptLint

lemma Tree.not_open {t : Tree} (htrailing : t.trailing? = none)
    (hif : ∀ test consequent, t.shape ≠ .ifStatement test consequent none) : ¬ t.Open := by
  intro h
  cases h with
  | here h => exact hif _ _ h
  | under h _ =>
    rw [htrailing] at h
    contradiction

namespace Grammar
variable {g : Productions} {s : Surroundings} {c : Cursor}

/-- No `else` follows the statement if it is open. -/
def Closed (t : Tree) (d : Cursor) : Prop := t.Open → d.current.kind ≠ .reserved .kwElse

/-- A statement with another one at its end is as open as that one. -/
lemma Closed.trailing {t c : Tree} {d : Cursor} (h : Closed c d) (ht : t.trailing? = some c)
    (hif : ∀ test consequent, t.shape ≠ .ifStatement test consequent none) : Closed t d := by
  intro hopen
  cases hopen with
  | here hs => exact absurd hs (hif _ _)
  | under hc hopen =>
    obtain rfl := Option.some.inj (ht.symm.trans hc)
    exact h hopen

/-- A node that is never open, put on top of whatever was read. -/
lemma finish_closed {start : Nat} {shape : Shape Tree}
    (h : ∀ i span, (Tree.node i span shape).trailing? = none)
    (hif : ∀ test consequent, shape ≠ .ifStatement test consequent none) :
    Yields (finish start shape) s c Closed := by
  rw [yields_finish]
  exact fun hopen => absurd hopen (Tree.not_open (h _ _) hif)

lemma ended_closed {start : Nat} {shape : Shape Tree}
    (h : ∀ i span, (Tree.node i span shape).trailing? = none)
    (hif : ∀ test consequent, shape ≠ .ifStatement test consequent none) :
    Yields (endStatement >>= fun _ => finish start shape) s c Closed :=
  .last fun _ _ => finish_closed h hif

theorem block_closed : Yields (block g) s c Closed :=
  .last fun _ _ => .last fun _ _ => .last fun _ _ => .last fun _ _ =>
    finish_closed (fun _ _ => rfl) (by simp)

/-- Whatever comes before, the node of a function is finished last. -/
theorem function_last {kind : FunctionKind} {Q : Tree → Cursor → Prop}
    (h : ∀ start name params body d, Yields (finish start (.function kind name params body)) s d Q) :
    Yields (function g kind) s c Q := by
  have hend (start : Nat) (name : Option Tree) (d : Cursor) :
      Yields (parameterList g >>= fun params => functionBody g >>= fun body =>
        finish start (.function kind name params body)) s d Q :=
    .last fun _ _ => .last fun _ d => h start name _ _ d
  have hnamed (start : Nat) (named : Bool) (d : Cursor) :
      Yields (if named = true then some <$> bindingName >>= fun name => parameterList g >>=
        fun params => functionBody g >>= fun body =>
          finish start (.function kind name params body)
        else pure none >>= fun name => parameterList g >>= fun params => functionBody g >>=
          fun body => finish start (.function kind name params body)) s d Q := by
    split
    · exact .last fun name d => hend start name d
    · exact .last fun name d => hend start name d
  refine .last fun start d => .last fun _ d => .last fun _ d => ?_
  split
  · exact .last fun named d => hnamed start named d
  · refine .last fun t d => ?_
    split <;> exact .last fun named d => hnamed start named d

/-- Whatever comes before, the node of an arrow function is finished last. -/
theorem arrowFunction_last {Q : Tree → Cursor → Prop}
    (h : ∀ start params body d, Yields (finish start (.function .arrow none params body)) s d Q) :
    Yields (arrowFunction g) s c Q := by
  have hend (start : Nat) (params : List Tree) (d : Cursor) :
      Yields (expectPunct .arrow >>= fun _ => atPunct .openBrace >>= fun braced =>
        if braced = true then functionBody g >>= fun body =>
          finish start (.function .arrow none params body)
        else g.assignment false >>= fun body =>
          finish start (.function .arrow none params body)) s d Q := by
    refine .last fun _ _ => .last fun braced _ => ?_
    split <;> exact .last fun body d => h start params body d
  refine .last fun start d => .last fun parens d => ?_
  split
  · exact .last fun params d => hend start params d
  · exact .last fun param d => .last fun params d => hend start params d

/-- What begins with the keyword of a function is one. -/
theorem function_isFunctionOf {kind : FunctionKind} :
    Yields (function g kind) s c fun t _ => t.isFunctionOf kind :=
  function_last fun _ _ _ _ _ => yields_finish.mpr (beq_self_eq_true kind)

theorem function_closed {kind : FunctionKind} : Yields (function g kind) s c Closed := by
  refine function_isFunctionOf.mono fun t d ht hopen => absurd hopen ?_
  obtain ⟨i,span,shape⟩ := t
  cases shape with
  | function => exact Tree.not_open rfl (by simp [Tree.shape])
  | _ => contradiction

theorem variableStatement_closed {kind : VariableKind} :
    Yields (variableStatement g kind) s c Closed := by
  rw [variableStatement,yields_bind,declarationHead]
  simp only [yields_bind,yields_start,yields_advance,yields_pure]
  exact .of_forall fun declarators d => yields_bind.mp (ended_closed (fun _ _ => rfl) (by simp))

theorem expressionStatement_closed : Yields (expressionStatement g) s c Closed :=
  .last fun _ _ => .last fun _ _ => ended_closed (fun _ _ => rfl) (by simp)

theorem returnStatement_closed : Yields (returnStatement g) s c Closed := by
  refine .last fun start d => .last fun around d => ?_
  split
  · refine .last fun _ d => .last fun t d => ?_
    dsimp only
    split <;> exact .last fun _ d => ended_closed (fun _ _ => rfl) (by simp)
  · exact yields_fail

theorem jump_closed {shape : Option Tree → Shape Tree}
    (h : ∀ label i span, (Tree.node i span (shape label)).trailing? = none)
    (hif : ∀ label test consequent, shape label ≠ .ifStatement test consequent none) :
    Yields (jump shape) s c Closed := by
  have hend (start : Nat) (label : Option Tree) (d : Cursor) :
      Yields (endStatement >>= fun _ => finish start (shape label)) s d Closed :=
    ended_closed (h label) (hif label)
  refine .last fun start d => .last fun _ d => .last fun t d => ?_
  split
  · split <;> exact .last fun label d => hend start label d
  · exact .last fun label d => hend start label d

theorem throwStatement_closed : Yields (throwStatement g) s c Closed := by
  refine .last fun start d => .last fun _ d => .last fun t d => ?_
  split
  · exact yields_fail
  · exact .last fun _ d => ended_closed (fun _ _ => rfl) (by simp)

theorem doWhile_closed : Yields (doWhile g) s c Closed :=
  .last fun _ _ => .last fun _ _ => .last fun _ _ => .last fun _ _ =>
    .last fun _ _ => .last fun _ _ => finish_closed (fun _ _ => rfl) (by simp)

theorem tryStatement_closed : Yields (tryStatement g) s c Closed := by
  have hend (start : Nat) (body : Tree) (handler finalizer : Option Tree) (d : Cursor) :
      Yields (if (handler.isNone && finalizer.isNone) = true then fail .tryAlone
        else finish start (.tryStatement body handler finalizer)) s d Closed := by
    split
    · exact yields_fail
    · exact finish_closed (fun _ _ => rfl) (by simp)
  refine .last fun start d => .last fun _ d => .last fun body d =>
    .last fun handler d => .last fun found d => ?_
  split <;> exact .last fun finalizer d => hend start body handler finalizer d

theorem switchStatement_closed : Yields (switchStatement g) s c Closed :=
  .last fun _ _ => .last fun _ _ => .last fun _ _ => .last fun _ _ =>
    .last fun _ _ => finish_closed (fun _ _ => rfl) (by simp)

section Trailing
variable (hg : ∀ {s : Surroundings} {c : Cursor}, Yields g.statement s c Closed)
include hg

/-- A node that ends with the statement that is read last. -/
lemma trailing_closed {start : Nat} {shape : Tree → Shape Tree}
    (h : ∀ i span body, (Tree.node i span (shape body)).trailing? = some body)
    (hif : ∀ body test consequent, shape body ≠ .ifStatement test consequent none) :
    Yields (g.statement >>= fun body => finish start (shape body)) s c Closed := by
  simp only [yields_bind,yields_finish]
  exact hg.mono fun body d hd => hd.trailing (h _ _ body) (hif body)

theorem ifStatement_closed : Yields (ifStatement g) s c Closed := by
  refine .last fun start d => .last fun _ d => .last fun test d =>
    .last fun consequent d => ?_
  simp only [yields_bind,yields_eatWord,reduceIte,Bool.false_eq_true,yields_map,yields_pure,
    yields_finish]
  refine ⟨fun _ => hg.mono fun alternate d hd => ?_,fun hk _ => hk⟩
  exact hd.trailing rfl (by simp [Tree.shape])

theorem whileLoop_closed : Yields (whileLoop g) s c Closed :=
  .last fun _ _ => .last fun _ _ => .last fun _ _ =>
    trailing_closed hg (fun _ _ _ => rfl) (by simp)

theorem withStatement_closed : Yields (withStatement g) s c Closed :=
  .last fun _ _ => .last fun _ _ => .last fun _ _ =>
    trailing_closed hg (fun _ _ _ => rfl) (by simp)

theorem labeled_closed : Yields (labeled g) s c Closed :=
  .last fun _ _ => .last fun _ _ => .last fun _ _ =>
    trailing_closed hg (fun _ _ _ => rfl) (by simp)

lemma forMembers_closed {start : Nat} {left : Tree} {shape : Tree → Tree → Tree → Shape Tree}
    {right : Parser Tree}
    (h : ∀ i span right body, (Tree.node i span (shape left right body)).trailing? = some body)
    (hif : ∀ right body test consequent,
      shape left right body ≠ .ifStatement test consequent none) :
    Yields (forMembers g start left shape right) s c Closed := by
  rw [forMembers]
  split
  · exact .last fun _ _ => .last fun right _ => .last fun _ _ =>
      trailing_closed hg (fun i span => h i span right) (hif right)
  · exact yields_failAt

lemma forSteps_closed {start : Nat} {head : Option Tree} :
    Yields (forSteps g start head) s c Closed := by
  have hend (test step : Option Tree) (d : Cursor) :
      Yields (expectPunct .closeParen >>= fun _ => g.statement >>= fun body =>
        finish start (.forLoop head test step body)) s d Closed :=
    .last fun _ _ => trailing_closed hg (fun _ _ _ => rfl) (by simp)
  have hstep (test : Option Tree) (d : Cursor) :
      Yields (expectPunct .semicolon >>= fun _ => atPunct .closeParen >>= fun absent =>
        if absent = true then pure none >>= fun step => expectPunct .closeParen >>= fun _ =>
          g.statement >>= fun body => finish start (.forLoop head test step body)
        else some <$> g.expression false >>= fun step => expectPunct .closeParen >>= fun _ =>
          g.statement >>= fun body => finish start (.forLoop head test step body)) s d Closed := by
    refine .last fun _ d => .last fun absent d => ?_
    split <;> exact .last fun step d => hend test step d
  refine .last fun _ d => .last fun absent d => ?_
  split <;> exact .last fun test d => hstep test d

theorem forLoop_closed : Yields (forLoop g) s c Closed := by
  refine .last fun start d => .last fun _ d => .last fun _ d =>
    .last fun head d => .last fun t d => ?_
  split
  · exact forMembers_closed hg (fun _ _ _ _ => rfl) (by simp)
  · exact forMembers_closed hg (fun _ _ _ _ => rfl) (by simp)
  · exact forSteps_closed hg

theorem wordStatement_closed (w : Keyword) : Yields (wordStatement g w) s c Closed := by
  unfold wordStatement
  split
  · exact variableStatement_closed
  · exact variableStatement_closed
  · exact function_closed
  · exact ifStatement_closed hg
  · exact forLoop_closed hg
  · exact whileLoop_closed hg
  · exact doWhile_closed
  · exact returnStatement_closed
  · exact jump_closed (fun _ _ _ => rfl) (by simp)
  · exact jump_closed (fun _ _ _ => rfl) (by simp)
  · exact throwStatement_closed
  · exact tryStatement_closed
  · exact switchStatement_closed
  · exact withStatement_closed hg
  · exact .last fun _ _ => .last fun _ _ => ended_closed (fun _ _ => rfl) (by simp)
  · exact yields_fail
  · exact yields_fail
  · exact yields_fail
  · exact expressionStatement_closed

/-- A statement that is read is not followed by an `else` that it could have taken. -/
theorem statement_closed : Yields (statement g) s c Closed := by
  rw [statement,yields_nested]
  intro _
  refine .last fun c' d => ?_
  split
  · exact block_closed
  · exact .last fun _ _ => .last fun _ _ => finish_closed (fun _ _ => rfl) (by simp)
  · exact wordStatement_closed hg _
  · split
    · exact variableStatement_closed
    · split
      · exact labeled_closed hg
      · exact expressionStatement_closed
  · exact expressionStatement_closed

end Trailing
end Grammar
end ScriptLint
