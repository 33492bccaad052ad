import ScriptLint.Proofs.Greedy
import ScriptLint.Proofs.Placement

/-! How an expression ends. A parser that returns a node either stands where the node ends, or has
passed nothing since but the brackets that close around it. -/
namespace ScriptLint

namespace Tree
variable {tokens : List Token} {t : Tree}

theorem Trails.prepend (h : t.Trails tokens) (before : List Token) :
    t.Trails (before ++ tokens) := by
  obtain ⟨front,last,closing,rfl,hstop,hclosing⟩ := h
  exact ⟨before ++ front,last,closing,by simp,hstop,hclosing⟩

theorem Trails.close (h : t.Trails tokens) {token : Token} (ht : token.kind.closes) :
    t.Trails (tokens ++ [token]) := by
  obtain ⟨front,last,closing,rfl,hstop,hclosing⟩ := h
  refine ⟨front,last,closing ++ [token],by simp,hstop,?_⟩
  rw [List.forall_mem_append]
  exact ⟨hclosing,by simpa using ht⟩

end Tree

namespace Grammar

/-- A node ends at `d`, or all that a parser passed from its end on to `d` closes around it. -/
def Shut (c : Cursor) (t : Tree) (d : Cursor) : Prop :=
  t.span.stop = max d.consumedEnd t.span.start ∨ ∃ tokens, c.rest = tokens ++ d.rest ∧ t.Trails tokens

variable {g : Productions} {s : Surroundings} {c d : Cursor} {t : Tree}

/-- The tokens of a node that was read end with it, but for closing brackets. -/
theorem Shut.trails {tokens : List Token} (h : Shut c t d) (hc : c.WellFormed)
    (hr : Reads c tokens [t] d) : t.Trails tokens := by
  cases h with
  | inl hstop =>
    obtain ⟨front,last,rfl,hlast⟩ := hr.exists_last hc (hr.tokens_ne_nil (by simp))
    have hproper := ((hr.row hc).placed t (.head _)).start_lt_stop
    exact ⟨front,last,[],rfl,by omega,by simp⟩
  | inr hpassed =>
    obtain ⟨passed,hrest,htrails⟩ := hpassed
    rw [hr.rest_eq hc,List.append_left_inj] at hrest
    rwa [hrest]

/-- The productions that return operands of others unchanged leave nothing but closing brackets
behind them. -/
structure Productions.Closing (g : Productions) : Prop where
  expression {s : Surroundings} {c : Cursor} (hc : c.WellFormed) (inHead : Bool) :
    Yields (g.expression inHead) s c fun t d => Shut c t d ∧ ∃ tokens, Reads c tokens [t] d
  assignment {s : Surroundings} {c : Cursor} (hc : c.WellFormed) (inHead : Bool) :
    Yields (g.assignment inHead) s c (Shut c)
  binaryTail {s : Surroundings} {c d : Cursor} {left : Tree} (hl : Shut c left d)
    (start least : Nat) (inHead : Bool) :
    Yields (g.binaryTail start least inHead left) s d (Shut c)
  accessTail {s : Surroundings} {c d : Cursor} {owner : Tree} (ho : Shut c owner d) (start : Nat) :
    Yields (g.accessTail start owner) s d (Shut c)

theorem finish_shut {start : Nat} {shape : Shape Tree} : Yields (finish start shape) s d (Shut c) :=
  yields_finish.mpr (.inl rfl)

theorem literal_shut {kind : LiteralKind} {raw : String} :
    Yields (literal kind raw) s c (Shut c) :=
  .last fun _ _ => .last fun _ _ => finish_shut

theorem propertyName_shut : Yields propertyName s c (Shut c) := by
  refine .last fun start _ => .last fun token _ => ?_
  split
  · exact .last fun _ _ => finish_shut
  · exact .last fun _ _ => finish_shut
  · exact yields_failWith

/-- What is accessed further ends where it is finished. -/
theorem member_shut (hg : g.Closing) {start : Nat} {shape : Shape Tree} :
    Yields (finish start shape >>= g.accessTail start) s d (Shut c) := by
  rw [yields_bind]
  exact finish_shut.mono fun _ _ h => hg.accessTail h start

theorem accessTail_shut (hg : g.Closing) {owner : Tree} (ho : Shut c owner d) (start : Nat) :
    Yields (accessTail g start owner) s d (Shut c) := by
  rw [accessTail,yields_bind,yields_current]
  split
  · exact .last fun _ _ => .last fun _ _ => member_shut hg
  · refine .last fun _ _ => .last fun call _ => ?_
    split
    · exact .last fun _ _ => member_shut hg
    · refine .last fun computed _ => ?_
      split <;> exact .last fun _ _ => member_shut hg
  · exact .last fun _ _ => .last fun _ _ => member_shut hg
  · exact .last fun _ _ => member_shut hg
  · exact yields_pure.mpr ho

theorem construct_shut : Yields (construct g) s d (Shut c) := by
  have hend {start : Nat} {callee : Tree} {e : Cursor} :
      Yields (constructTail g start callee >>= fun callee => atPunct .openParen >>= fun parens =>
        if parens = true then argumentList g >>= fun arguments =>
          finish start (.construct callee arguments)
        else pure [] >>= fun arguments => finish start (.construct callee arguments)) s e
        (Shut c) := by
    refine .last fun callee _ => .last fun parens _ => ?_
    split <;> exact .last fun _ _ => finish_shut
  refine .last fun start _ => .last fun _ _ => .last fun dot e => ?_
  split
  · exact yields_fail
  · refine .last fun new e => ?_
    split <;> exact .last fun _ _ => hend

/-- An expression in parentheses is followed by the one that closes it. -/
theorem parens_shut (hg : g.Closing) (hc : c.WellFormed) (hk : c.current.kind = .punct .openParen) :
    Yields (advance >>= fun _ => g.expression false >>= fun inner =>
      expectPunct .closeParen >>= fun _ => pure inner) s c (Shut c) := by
  simp only [yields_bind,yields_advance,yields_expectPunct,yields_pure]
  refine (hg.expression hc.advance false).mono ?_
  intro inner d h hclose
  obtain ⟨hshut,tokens,hr⟩ := h
  have hrest := hr.rest_eq hc.advance
  have hd := hr.wellFormed hc.advance
  refine .inr ⟨[c.current] ++ (tokens ++ [d.current]),?_,?_⟩
  · rw [Cursor.rest,(hc.advance_eq (by simp [hk])).1,hrest,Cursor.rest,
      (hd.advance_eq (by simp [hclose])).1]
    simp
  · exact ((hshut.trails hc.advance hr).close (by rw [hclose]; rfl)).prepend _

section Step
variable (hg : g.Closing) (hc : c.WellFormed)
include hg hc

theorem primary_shut : Yields (primary g) s c (Shut c) := by
  rw [primary,yields_bind,yields_start,yields_bind,yields_current]
  split
  · exact .last fun _ _ => finish_shut
  · split
    · exact function_last fun _ _ _ _ _ => finish_shut
    · exact .last fun _ _ => finish_shut
    · exact literal_shut
    · exact literal_shut
    · exact literal_shut
    · exact yields_fail
    · exact yields_fail
    · exact yields_fail
    · exact yields_unexpected
  · exact literal_shut
  · exact literal_shut
  · exact literal_shut
  · next hk => exact parens_shut hg hc hk
  · exact .last fun _ _ => .last fun _ _ => .last fun _ _ => .last fun _ _ => finish_shut
  · exact .last fun _ _ => .last fun _ _ => .last fun _ _ => .last fun _ _ => finish_shut
  · exact yields_fail
  · exact yields_unexpected

theorem access_shut : Yields (access g) s c (Shut c) := by
  rw [access,yields_bind,yields_start,yields_bind,yields_atWord]
  split
  · exact yields_bind.mpr (construct_shut.mono fun _ _ h => accessTail_shut hg h _)
  · exact yields_bind.mpr ((primary_shut hg hc).mono fun _ _ h => accessTail_shut hg h _)

theorem unary_shut : Yields (unary g) s c (Shut c) := by
  rw [unary,yields_nested]
  intro _
  rw [yields_bind,yields_start,yields_bind,yields_current]
  split
  · exact .last fun _ _ => .last fun _ _ => finish_shut
  · exact .last fun _ _ => .last fun _ _ => finish_shut
  · rw [yields_bind]
    refine (access_shut hg hc).mono fun argument d h => ?_
    rw [yields_bind,yields_current]
    split
    · split
      · exact yields_pure.mpr h
      · exact .last fun _ _ => finish_shut
    · exact yields_pure.mpr h

omit hc in
theorem binaryTail_shut {left : Tree} (hl : Shut c left d) (start least : Nat) (inHead : Bool) :
    Yields (binaryTail g start least inHead left) s d (Shut c) := by
  rw [binaryTail,yields_bind,yields_current]
  split
  · split
    · exact yields_pure.mpr hl
    · refine .last fun _ _ => .last fun _ _ => yields_bind.mpr ?_
      exact finish_shut.mono fun _ _ h => hg.binaryTail h start least inHead
  · exact yields_pure.mpr hl

theorem conditional_shut (inHead : Bool) : Yields (conditional g inHead) s c (Shut c) := by
  rw [conditional,yields_bind,yields_start,yields_bind,binary,yields_bind,yields_start,
    yields_bind]
  refine (unary_shut hg hc).mono fun left d h => ?_
  refine (binaryTail_shut hg h _ 1 inHead).mono fun test d h => ?_
  simp only [yields_bind,yields_eatPunct,reduceIte,Bool.false_eq_true,yields_pure]
  refine ⟨fun _ => .of_forall fun _ _ => .of_forall fun _ _ => ?_,fun _ => h⟩
  exact .of_forall fun _ _ => finish_shut

theorem assignment_shut (inHead : Bool) : Yields (assignment g inHead) s c (Shut c) := by
  rw [assignment,yields_nested]
  intro _
  rw [yields_bind,yields_get]
  split
  · exact arrowFunction_last fun _ _ _ _ => finish_shut
  · rw [yields_bind,yields_start,yields_bind]
    refine (conditional_shut hg hc inHead).mono fun target d h => ?_
    rw [yields_bind,yields_current]
    split
    · split
      · exact .last fun _ _ => .last fun _ _ => finish_shut
      · exact yields_failAt
    · exact yields_pure.mpr h

theorem expression_shut (inHead : Bool) : Yields (expression g inHead) s c (Shut c) := by
  rw [expression,yields_bind,yields_start,yields_bind]
  refine (assignment_shut hg hc inHead).mono fun first d h => ?_
  rw [yields_bind,yields_atPunct]
  split
  · exact .last fun _ _ => finish_shut
  · exact yields_pure.mpr h

end Step
end Grammar
end ScriptLint
