import ScriptLint.Proofs.Greedy

/-! How deep the operators of an expression go. Each unary operator and each assignment on a chain is
read one level deeper than the one before, so that the levels that are left bound their number. The
other links of a chain use up no level. -/
namespace ScriptLint.Grammar

/-- Together with what surrounds it, the chain that begins at a node stays within the levels. -/
def Shallow (s : Surroundings) (t : Tree) (_ : Cursor) : Prop :=
  s.nesting + t.strain ≤ maxNesting

/-- The productions that chains run through keep within the levels. -/
structure Productions.Capped (g : Productions) : Prop where
  expression {s : Surroundings} {c : Cursor} (inHead : Bool) :
    Yields (g.expression inHead) s c (Shallow s)
  assignment {s : Surroundings} {c : Cursor} (inHead : Bool) :
    Yields (g.assignment inHead) s c (Shallow s)
  binary {s : Surroundings} {c : Cursor} (least : Nat) (inHead : Bool) :
    Yields (g.binary least inHead) s c (Shallow s)
  binaryTail {s : Surroundings} {c : Cursor} {left : Tree} (hl : Shallow s left c)
    (start least : Nat) (inHead : Bool) :
    Yields (g.binaryTail start least inHead left) s c (Shallow s)
  unary {s : Surroundings} {c : Cursor} : Yields g.unary s c (Shallow s)
  accessTail {s : Surroundings} {c : Cursor} {owner : Tree} (ho : Shallow s owner c) (start : Nat) :
    Yields (g.accessTail start owner) s c (Shallow s)
  construct {s : Surroundings} {c : Cursor} (hs : s.nesting ≤ maxNesting) :
    Yields g.construct s c (Shallow s)
  constructTail {s : Surroundings} {c : Cursor} {callee : Tree} (hc : Shallow s callee c)
    (start : Nat) : Yields (g.constructTail start callee) s c (Shallow s)

variable {g : Productions} {s : Surroundings} {c d : Cursor} {t u : Tree}

/-- A node without a next one uses up no level. -/
theorem shallow_of_none (hs : s.nesting ≤ maxNesting) (h : t.next? = none) : Shallow s t c := by
  rw [Shallow,Tree.strain_of_none h]
  exact hs

theorem Shallow.nesting_le (h : Shallow s t c) : s.nesting ≤ maxNesting :=
  Nat.le_trans (Nat.le_add_right ..) h

/-- A link that is not capped uses up no level. -/
theorem Shallow.link (h : Shallow s u c) (ht : t.next? = some u) (hf : t.isCapped = false) :
    Shallow s t d := by
  rw [Shallow,Tree.strain_of_next ht,hf,Bool.toNat_false,Nat.zero_add]
  exact h

/-- What is read one level deeper has room for one link more. -/
theorem Shallow.operator (h : Shallow { s with nesting := s.nesting + 1 } u c)
    (ht : t.next? = some u) : Shallow s t d := by
  have hle : s.nesting + 1 + u.strain ≤ maxNesting := h
  have hcapped : t.isCapped.toNat ≤ 1 := Bool.toNat_le _
  rw [Shallow,Tree.strain_of_next ht]
  omega

theorem Shallow.strain_lt (h : Shallow { s with nesting := s.nesting + 1 } u c) :
    u.strain < maxNesting := by
  have hle : s.nesting + 1 + u.strain ≤ maxNesting := h
  omega

theorem Shallow.outer (h : Shallow { s with nesting := s.nesting + 1 } t c) : Shallow s t d := by
  have hle : s.nesting + 1 + t.strain ≤ maxNesting := h
  rw [Shallow]
  omega

/-- A node without a next one, put on top of whatever was read. -/
theorem finish_shallow {start : Nat} {shape : Shape Tree} (hs : s.nesting ≤ maxNesting)
    (h : ∀ i span, (Tree.node i span shape).next? = none) :
    Yields (finish start shape) s c (Shallow s) :=
  yields_finish.mpr (shallow_of_none hs (h _ _))

theorem literal_shallow {kind : LiteralKind} {raw : String} (hs : s.nesting ≤ maxNesting) :
    Yields (literal kind raw) s c (Shallow s) :=
  .last fun _ _ => .last fun _ _ => finish_shallow hs fun _ _ => rfl

theorem function_shallow {kind : FunctionKind} (hs : s.nesting ≤ maxNesting) :
    Yields (function g kind) s c (Shallow s) :=
  function_last fun _ _ _ _ _ => finish_shallow hs fun _ _ => rfl

theorem arrowFunction_shallow (hs : s.nesting ≤ maxNesting) :
    Yields (arrowFunction g) s c (Shallow s) :=
  arrowFunction_last fun _ _ _ _ => finish_shallow hs fun _ _ => rfl

section Step
variable (hg : g.Capped)
include hg

theorem primary_shallow (hs : s.nesting ≤ maxNesting) : Yields (primary g) s c (Shallow s) := by
  rw [primary,yields_bind,yields_start,yields_bind,yields_current]
  split
  · exact .last fun _ _ => finish_shallow hs fun _ _ => rfl
  · split
    · exact function_shallow hs
    · exact .last fun _ _ => finish_shallow hs fun _ _ => rfl
    · exact literal_shallow hs
    · exact literal_shallow hs
    · exact literal_shallow hs
    · exact yields_fail
    · exact yields_fail
    · exact yields_fail
    · exact yields_unexpected
  · exact literal_shallow hs
  · exact literal_shallow hs
  · exact literal_shallow hs
  · simp only [yields_bind,yields_advance,yields_expectPunct,yields_pure]
    exact (hg.expression false).mono fun _ _ h _ => h
  · exact .last fun _ _ => .last fun _ _ => .last fun _ _ => .last fun _ _ =>
      finish_shallow hs fun _ _ => rfl
  · exact .last fun _ _ => .last fun _ _ => .last fun _ _ => .last fun _ _ =>
      finish_shallow hs fun _ _ => rfl
  · exact yields_fail
  · exact yields_unexpected

/-- What is accessed further begins no chain. -/
theorem member_shallow {start : Nat} {shape : Shape Tree} (hs : s.nesting ≤ maxNesting)
    (h : ∀ i span, (Tree.node i span shape).next? = none) :
    Yields (finish start shape >>= g.accessTail start) s c (Shallow s) := by
  rw [yields_bind,yields_finish]
  exact hg.accessTail (shallow_of_none hs (h _ _)) start

theorem accessTail_shallow {owner : Tree} (ho : Shallow s owner c) (start : Nat) :
    Yields (accessTail g start owner) s c (Shallow s) := by
  have hs := ho.nesting_le
  rw [accessTail,yields_bind,yields_current]
  split
  · exact .last fun _ _ => .last fun _ _ => member_shallow hg hs fun _ _ => rfl
  · refine .last fun _ _ => .last fun call _ => ?_
    split
    · exact .last fun _ _ => member_shallow hg hs fun _ _ => rfl
    · refine .last fun computed _ => ?_
      split <;> exact .last fun _ _ => member_shallow hg hs fun _ _ => rfl
  · exact .last fun _ _ => .last fun _ _ => member_shallow hg hs fun _ _ => rfl
  · exact .last fun _ _ => member_shallow hg hs fun _ _ => rfl
  · exact yields_pure.mpr ho

theorem constructTail_shallow {callee : Tree} (hc : Shallow s callee c) (start : Nat) :
    Yields (constructTail g start callee) s c (Shallow s) := by
  have hmember {key : Tree} {computed : Bool} {d : Cursor} :
      Yields (finish start (.member callee key computed false) >>= g.constructTail start) s d
        (Shallow s) := by
    rw [yields_bind,yields_finish]
    exact hg.constructTail (shallow_of_none hc.nesting_le rfl) start
  simp only [constructTail,yields_bind,yields_eatPunct,reduceIte,Bool.false_eq_true,yields_pure]
  refine ⟨fun _ => .of_forall fun _ _ => yields_bind.mp hmember,fun _ => ⟨fun _ => ?_,fun _ => hc⟩⟩
  exact .of_forall fun _ _ => yields_bind.mp hmember

theorem construct_shallow (hs : s.nesting ≤ maxNesting) : Yields (construct g) s c (Shallow s) := by
  have hend {start : Nat} {callee : Tree} {d : Cursor} (h : Shallow s callee d) :
      Yields (constructTail g start callee >>= fun callee => atPunct .openParen >>= fun parens =>
        if parens = true then argumentList g >>= fun arguments =>
          finish start (.construct callee arguments)
        else pure [] >>= fun arguments => finish start (.construct callee arguments)) s d
        (Shallow s) := by
    rw [yields_bind]
    refine (constructTail_shallow hg h start).mono fun callee e h => .last fun parens _ => ?_
    split <;> exact .last fun _ _ => yields_finish.mpr (h.link rfl rfl)
  refine .last fun start _ => .last fun _ _ => .last fun dot d => ?_
  split
  · exact yields_fail
  · refine .last fun new d => ?_
    split
    · exact yields_bind.mpr ((hg.construct hs).mono fun _ _ h => hend h)
    · exact yields_bind.mpr ((primary_shallow hg hs).mono fun _ _ h => hend h)

theorem access_shallow (hs : s.nesting ≤ maxNesting) : Yields (access g) s c (Shallow s) := by
  refine .last fun start _ => .last fun new d => ?_
  split
  · exact yields_bind.mpr ((construct_shallow hg hs).mono fun _ _ h => accessTail_shallow hg h start)
  · exact yields_bind.mpr ((primary_shallow hg hs).mono fun _ _ h => accessTail_shallow hg h start)

theorem unary_shallow : Yields (unary g) s c (Shallow s) := by
  rw [unary,yields_nested]
  intro hs
  rw [yields_bind,yields_start,yields_bind,yields_current]
  split
  · simp only [yields_bind,yields_advance,yields_finish]
    exact hg.unary.mono fun _ _ h => h.operator rfl
  · simp only [yields_bind,yields_advance,yields_finish]
    exact .of_forall fun _ _ => shallow_of_none (Nat.le_of_lt hs) rfl
  · rw [yields_bind]
    refine (access_shallow (s := { s with nesting := s.nesting + 1 }) hg hs).mono ?_
    intro argument d h
    rw [yields_bind,yields_current]
    split
    · split
      · exact yields_pure.mpr h.outer
      · simp only [yields_bind,yields_advance,yields_finish]
        exact shallow_of_none (Nat.le_of_lt hs) rfl
    · exact yields_pure.mpr h.outer

theorem binaryTail_shallow {left : Tree} (hl : Shallow s left c) (start least : Nat)
    (inHead : Bool) : Yields (binaryTail g start least inHead left) s c (Shallow s) := by
  rw [binaryTail,yields_bind,yields_current]
  split
  · next operator _ =>
    split
    · exact yields_pure.mpr hl
    · simp only [yields_bind,yields_advance,yields_finish]
      refine (hg.binary operator.rightPrecedence inHead).mono fun right d hr => ?_
      refine hg.binaryTail ?_ start least inHead
      cases operator with
      | pow => exact hr.link rfl rfl
      | _ => exact shallow_of_none hr.nesting_le rfl
  · exact yields_pure.mpr hl

theorem binary_shallow (least : Nat) (inHead : Bool) :
    Yields (binary g least inHead) s c (Shallow s) := by
  rw [binary,yields_bind,yields_start,yields_bind]
  exact (unary_shallow hg).mono fun _ _ h => binaryTail_shallow hg h _ least inHead

theorem conditional_shallow (inHead : Bool) : Yields (conditional g inHead) s c (Shallow s) := by
  rw [conditional,yields_bind,yields_start,yields_bind]
  refine (binary_shallow hg 1 inHead).mono fun test d h => .last fun found _ => ?_
  split
  · exact .last fun _ _ => .last fun _ _ => .last fun _ _ =>
      finish_shallow h.nesting_le fun _ _ => rfl
  · exact yields_pure.mpr h

theorem assignment_shallow (inHead : Bool) : Yields (assignment g inHead) s c (Shallow s) := by
  rw [assignment,yields_nested]
  intro hs
  rw [yields_bind,yields_get]
  split
  · exact (arrowFunction_shallow (s := { s with nesting := s.nesting + 1 }) hs).mono
      fun _ _ h => h.outer
  · rw [yields_bind,yields_start,yields_bind]
    refine (conditional_shallow hg inHead).mono fun target d h => ?_
    rw [yields_bind,yields_current]
    split
    · split
      · simp only [yields_bind,yields_advance,yields_finish]
        exact (hg.assignment inHead).mono fun _ _ h => h.operator rfl
      · exact yields_failAt
    · exact yields_pure.mpr h.outer

theorem expression_shallow (inHead : Bool) : Yields (expression g inHead) s c (Shallow s) := by
  rw [expression,yields_bind,yields_start,yields_bind]
  refine (assignment_shallow hg inHead).mono fun first d h => .last fun comma _ => ?_
  split
  · exact .last fun _ _ => finish_shallow h.nesting_le fun _ _ => rfl
  · exact yields_pure.mpr h

end Step

end ScriptLint.Grammar
