import ScriptLint.Grammar.Program
import ScriptLint.Proofs.Statement

/-! What is read of a whole program: by induction on how often the productions are unrolled, all of
them do as they should, and so a program is statements from the first token to the last. -/
namespace ScriptLint.Grammar

theorem Productions.capped_none : Productions.none.Capped := by
  constructor <;> intros <;> exact yields_unexpected

theorem Productions.Capped.step {g : Productions} (hg : g.Capped) : g.step.Capped where
  expression inHead := expression_shallow hg inHead
  assignment inHead := assignment_shallow hg inHead
  binary least inHead := binary_shallow hg least inHead
  binaryTail hl start least inHead := binaryTail_shallow hg hl start least inHead
  unary := unary_shallow hg
  accessTail ho start := accessTail_shallow hg ho start
  construct hs := construct_shallow hg hs
  constructTail hc start := constructTail_shallow hg hc start

theorem Productions.closing_none : Productions.none.Closing := by
  constructor <;> intros <;> exact yields_unexpected

theorem Productions.sound_none : Productions.none.Sound := by
  constructor
  case capped => exact Productions.capped_none
  case closing => exact Productions.closing_none
  all_goals
    intros
    exact yields_unexpected

theorem Productions.Sound.closing_step {g : Productions} (hg : g.Sound) : g.step.Closing where
  expression hc inHead := by
    refine ((expression_shut hg.closing hc inHead).and (expression_yields hg hc inHead)).mono ?_
    intro t d h
    obtain ⟨hshut,tokens,hb,_⟩ := h
    exact ⟨hshut,tokens,hb.reads⟩
  assignment hc inHead := assignment_shut hg.closing hc inHead
  binaryTail hl start least inHead := binaryTail_shut hg.closing hl start least inHead
  accessTail ho start := accessTail_shut hg.closing ho start

/-- One more layer of productions does as it should when the layers below do. -/
theorem Productions.Sound.step {g : Productions} (hg : g.Sound) : g.step.Sound where
  expression hc inHead := expression_yields hg hc inHead
  sequenceTail hc inHead := (sequenceTail_yields hg hc inHead).mono fun _ _ h => h.1
  assignment hc inHead := assignment_yields hg hc inHead
  binary hc least inHead := binary_yields hg hc least inHead
  binaryTail h least inHead := binaryTail_yields hg h least inHead
  unary hc := unary_yields hg hc
  accessTail h := accessTail_yields hg h
  construct hc := construct_yields hg hc
  constructTail h := constructTail_yields hg h
  arguments hc := arguments_yields hg hc
  elements hc := elements_yields hg hc
  properties hc := properties_yields hg hc
  parameters hc := parameters_yields hg hc
  declarators hc inHead := declarators_yields hg hc inHead
  statement hc := statement_yields hg hc
  greedy := statement_closed hg.greedy
  blockItems hc := blockItems_yields hg hc
  caseItems hc := caseItems_yields hg hc
  cases hc hasDefault := cases_yields hg hc hasDefault
  programItems hc := programItems_yields hg hc
  capped := hg.capped.step
  closing := hg.closing_step

theorem sound_productions (n : Nat) : (productions n).Sound := by
  induction n with
  | zero => exact Productions.sound_none
  | succ n ih => exact ih.step

/-- The program of some tokens: its statements, read outside of all functions and followed by the
end of input, below a node of their own. -/
theorem parseTokens_reads {first : Token} {others : List Token} {root : Tree}
    (ht : Tokens 0 (first :: others)) (h : parseTokens first others = .ok root) :
    ∃ tokens body d, Built false ⟨first,others,0,0⟩ tokens body d ∧
      (∀ t ∈ body, t.isStatement) ∧ d.current.kind = .endOfInput ∧
      root = .node d.finished ⟨0,d.current.span.stop⟩ (.program body) := by
  have hprogram : Yields (program (productions (others.length + 1))) ⟨0,false⟩
      ⟨first,others,0,0⟩ fun root _ =>
      ∃ tokens body d, Built false ⟨first,others,0,0⟩ tokens body d ∧
        (∀ t ∈ body, t.isStatement) ∧ d.current.kind = .endOfInput ∧
        root = .node d.finished ⟨0,d.current.span.stop⟩ (.program body) := by
    have hc : Cursor.WellFormed ⟨first,others,0,0⟩ := ht
    rw [program,yields_bind]
    refine ((sound_productions _).programItems hc).mono ?_
    rintro body d ⟨⟨tokens,hb,hs⟩,hk⟩
    rw [yields_bind,yields_current]
    intro t e he
    cases he
    exact ⟨tokens,body,d,hb,hs,hk,rfl⟩
  unfold parseTokens at h
  dsimp only at h
  split at h
  · next tree d hp =>
    cases h
    exact hprogram _ _ hp
  · contradiction

end ScriptLint.Grammar
