import ScriptLint.Proofs.Discipline.Basic

/-! The productions of functions and expressions, judged over productions that are judged. They call
these only after they have passed a token. -/
namespace ScriptLint.Grammar

/-- Productions that are judged at places with fewer than `n` tokens ahead. Those that go on with a
construct are given where it started and what was read of it. What has an operand to go on with, and
what may be left out, passes no token for certain. -/
structure Productions.Judged (A : Discipline) (n : Int) (g g' : Productions) : Prop where
  expression {k b : Int} {inHead : Bool} (h : k < n) :
    A.Passes k b A.tree (g.expression inHead) (g'.expression inHead) 1 1
  sequenceTail {k b : Int} {inHead : Bool} (h : k < n) :
    A.Passes k b (List.map A.tree) (g.sequenceTail inHead) (g'.sequenceTail inHead) 0 0
  assignment {k b : Int} {inHead : Bool} (h : k < n) :
    A.Passes k b A.tree (g.assignment inHead) (g'.assignment inHead) 1 1
  binary {k b : Int} {least : Nat} {inHead : Bool} (h : k < n) :
    A.Passes k b A.tree (g.binary least inHead) (g'.binary least inHead) 1 1
  binaryTail {k b : Int} {start least : Nat} {inHead : Bool} {left : Tree} (h : k < n) :
    A.Passes k b A.tree (g.binaryTail start least inHead left)
      (g'.binaryTail (A.start start) least inHead (A.tree left)) 0 0
  unary {k b : Int} (h : k < n) : A.Passes k b A.tree g.unary g'.unary 1 1
  accessTail {k b : Int} {start : Nat} {owner : Tree} (h : k < n) :
    A.Passes k b A.tree (g.accessTail start owner) (g'.accessTail (A.start start) (A.tree owner)) 0 0
  construct {k b : Int} (h : k < n) : A.Passes k b A.tree g.construct g'.construct 1 1
  constructTail {k b : Int} {start : Nat} {callee : Tree} (h : k < n) :
    A.Passes k b A.tree (g.constructTail start callee)
      (g'.constructTail (A.start start) (A.tree callee)) 0 0
  arguments {k b : Int} (h : k < n) :
    A.Passes k b (List.map A.tree) g.arguments g'.arguments 0 0
  elements {k b : Int} (h : k < n) :
    A.Passes k b (List.map (Option.map A.tree)) g.elements g'.elements 0 0
  properties {k b : Int} (h : k < n) :
    A.Passes k b (List.map A.tree) g.properties g'.properties 0 0
  parameters {k b : Int} (h : k < n) :
    A.Passes k b (List.map A.tree) g.parameters g'.parameters 0 0
  declarators {k b : Int} {inHead : Bool} (h : k < n) :
    A.Passes k b (List.map A.tree) (g.declarators inHead) (g'.declarators inHead) 1 0
  statement {k b : Int} (h : k < n) : A.Passes k b A.tree g.statement g'.statement 1 0
  blockItems {k b : Int} (h : k < n) :
    A.Passes k b (List.map A.tree) g.blockItems g'.blockItems 0 0
  caseItems {k b : Int} (h : k < n) :
    A.Passes k b (List.map A.tree) g.caseItems g'.caseItems 0 0
  cases {k b : Int} {hasDefault : Bool} (h : k < n) :
    A.Passes k b (List.map A.tree) (g.cases hasDefault) (g'.cases hasDefault) 0 0
  programItems {k b : Int} (h : k < n) :
    A.Passes k b (List.map A.tree) g.programItems g'.programItems 0 0

/-- The trees that may be refused after they are read are behind the productions that read them. -/
structure Productions.Retraced (A : Discipline) (g : Productions) : Prop where
  conditional {inHead : Bool} : A.Leaves (fun t => [t]) (Grammar.conditional g inHead)
  forHead : A.Leaves Option.toList (Grammar.forHead g)

/-- What makes nothing of the end of input tells it from the tokens it makes something of. -/
lemma ne_end_of_eq_some {β : Type} {f : TokenKind → Option β} {kind : TokenKind} {a : β}
    (h : f kind = some a) (hend : f .endOfInput = none) : kind ≠ .endOfInput := by
  rintro rfl
  cases hend.symm.trans h

namespace Discipline.Judges
variable {A : Discipline} {g g' : Productions} {n k b : Int} (hg : g.Judged A n g') (hk : k ≤ n)
include hg hk

theorem parameter : A.Passes k b A.tree (parameter g) (parameter g') 1 1 := by
  refine start.bind fun _ => eatPunct_ite ?_ ?_
  · exact bindingName.bind fun _ => finish.mono (by omega)
  · refine bindingName.bind fun _ => eatPunct_ite ?_ (pure.mono (by omega))
    exact (hg.assignment (by omega)).bind fun _ => finish.mono (by omega)

theorem parameters : A.Passes k b (List.map A.tree) (parameters g) (parameters g') 0 0 := by
  refine atPunct.bind fun _ => .ite (pure.mono (by omega)) ?_
  refine (parameter hg hk).bind fun _ => eatPunct_ite ?_ (pure.mono (by omega))
  exact (hg.parameters (by omega)).bind fun _ => pure.mono (by omega)

theorem parameterList :
    A.Passes k b (List.map A.tree) (parameterList g) (parameterList g') 2 4 := by
  refine expectPunct.bind fun _ => (hg.parameters (by omega)).bind fun _ => ?_
  exact expectPunct.bind fun _ => pure.mono (by omega)

theorem block : A.Passes k b A.tree (block g) (block g') 1 1 := by
  refine start.bind fun _ => expectPunct.bind fun _ => (hg.blockItems (by omega)).bind fun _ => ?_
  -- The items end at the brace that closes them, but the budget does not need it.
  exact advance_le.bind fun _ => finish.mono (by omega)

theorem functionBody : A.Passes k b A.tree (functionBody g) (functionBody g') 1 1 :=
  (block hg hk).insideFunction

theorem function {kind : FunctionKind} :
    A.Passes k b A.tree (function g kind) (function g' kind) 1 1 := by
  refine start.bind fun _ => expectWord.bind fun _ => eatPunct.bind fun _ => ?_
  -- Whether there is a name is settled in several branches; the rest is the same in all of them.
  extract_lets tail rest tail' rest'
  have htail (name : Option Tree) : A.Judges (Left (k - 1) (b - 2)) A.tree (tail name)
      (tail' (name.map A.tree)) fun _ => Left (k - 1) (b - 1) := by
    refine (parameterList hg (by omega)).bind fun _ => (functionBody hg (by omega)).bind fun _ => ?_
    exact finish.mono (by omega)
  have hrest (named : Bool) : A.Judges (Left (k - 1) (b - 2)) A.tree (rest named) (rest' named)
      fun _ => Left (k - 1) (b - 1) := by
    refine .ite ?_ ?_
    · exact (bindingName.some.mono (by omega)).bind htail
    · exact (pure (f := Option.map A.tree)).bind htail
  refine .ite (pure.bind hrest) (current.bind fun t => .facing ?_)
  rw [A.kind_token]
  split <;> exact pure.bind hrest

theorem arrowFunction : A.Passes k b A.tree (arrowFunction g) (arrowFunction g') 1 1 := by
  refine start.bind fun _ => atPunct.bind fun _ => ?_
  extract_lets tail tail'
  have htail (params : List Tree) : A.Judges (Left (k - 1) (b - 1)) A.tree (tail params)
      (tail' (params.map A.tree)) fun _ => Left (k - 1) (b - 1) := by
    refine expectPunct.bind fun _ => atPunct.bind fun _ => .ite ?_ ?_
    · exact (functionBody hg (by omega)).bind fun _ => finish.mono (by omega)
    · exact (hg.assignment (by omega)).bind fun _ => finish.mono (by omega)
  refine .ite (((parameterList hg hk).mono (by omega)).bind htail) ?_
  exact bindingName.bind fun _ => (pure (f := List.map A.tree)).bind htail

theorem argumentList : A.Passes k b (List.map A.tree) (argumentList g) (argumentList g') 2 4 := by
  refine expectPunct.bind fun _ => (hg.arguments (by omega)).bind fun _ => ?_
  exact expectPunct.bind fun _ => pure.mono (by omega)

omit hg hk in
theorem literal {kind : TokenKind} (hkind : kind ≠ .endOfInput) {literalKind : LiteralKind}
    {raw : String} :
    A.PassesAt kind k b A.tree (literal literalKind raw) (literal literalKind raw) 1 1 :=
  start.bind fun _ => (advance hkind).bind fun _ => finish.mono (by omega)

theorem array : A.Passes k b A.tree (array g) (array g') 1 1 := by
  refine start.bind fun _ => expectPunct.bind fun _ => (hg.elements (by omega)).bind fun _ => ?_
  exact advance_le.bind fun _ => finish.mono (by omega)

theorem object : A.Passes k b A.tree (object g) (object g') 1 1 := by
  refine start.bind fun _ => expectPunct.bind fun _ => (hg.properties (by omega)).bind fun _ => ?_
  exact advance_le.bind fun _ => finish.mono (by omega)

theorem propertyKey :
    A.Passes k b (Prod.map A.tree id) (propertyKey g) (propertyKey g') 1 1 := by
  refine current.bind fun t => ?_
  rw [A.kind_token]
  split
  next hkind =>
    refine (advance (by simp [hkind])).bind fun _ => (hg.assignment (by omega)).bind fun _ => ?_
    exact expectPunct.bind fun _ => pure.mono (by omega)
  · exact .facing (propertyName.bind fun _ => pure)
  · exact .facing (propertyName.bind fun _ => pure)
  next hkind => exact (literal (by simp [hkind])).bind fun _ => pure
  next hkind => exact (literal (by simp [hkind])).bind fun _ => pure
  · exact unexpected

/-- A key that stands for itself is a node more. -/
theorem propertyValue {start : Nat} {accessor : Bool} {key : Tree} {computed : Bool} :
    A.Passes k b A.tree (propertyValue g start accessor key computed)
      (propertyValue g' (A.start start) accessor (A.tree key) computed) 0 (-1) := by
  refine current.bind fun t => ?_
  rw [A.kind_token,A.shape_tree]
  refine ite_of (fun hcolon => ?_) (.facing (.ite ?_ ?_))
  · have hkind : t.kind ≠ .endOfInput := by
      intro hend
      simp [hend] at hcolon
    refine (advance hkind).bind fun _ => (hg.assignment (by omega)).bind fun _ => ?_
    exact finish.mono (by omega)
  · refine (parameterList hg hk).bind fun _ => (functionBody hg (by omega)).bind fun _ => ?_
    exact finish.bind fun _ => finish.mono (by omega)
  · -- Which keys are plain shows in the shape of the key, which keeps its name.
    extract_lets plain plain'
    have hplain : plain' = plain := by
      subst plain plain'
      cases key.shape <;> rfl
    rw [hplain]
    exact .ite (finish.mono (by omega)) unexpected

theorem property : A.Passes k b A.tree (property g) (property g') 1 0 := by
  refine start.bind fun _ => eatPunct_ite ?_ (get.bind fun c => .facing ?_)
  · exact (hg.assignment (by omega)).bind fun _ => finish.mono (by omega)
  · rw [A.startsAccessor_cursor]
    extract_lets accessor tail tail'
    have htail (u : Unit) :
        A.Judges (Left k b) A.tree (tail u) (tail' u) fun _ => Left (k - 1) (b - 0) := by
      refine (propertyKey hg hk).bind fun _ => ?_
      exact (propertyValue hg (by omega)).mono (by omega)
    -- The word before an accessor is paid for by the key alone.
    exact .ite (advance_le.bind htail) (htail ())

theorem properties : A.Passes k b (List.map A.tree) (properties g) (properties g') 0 0 := by
  refine atPunct.bind fun _ => .ite (pure.mono (by omega)) ?_
  refine (property hg hk).bind fun _ => atPunct.bind fun _ => .ite (pure.mono (by omega)) ?_
  refine expectPunct.bind fun _ => (hg.properties (by omega)).bind fun _ => ?_
  exact pure.mono (by omega)

theorem primary : A.Passes k b A.tree (primary g) (primary g') 1 1 := by
  refine start.bind fun _ => current.bind fun t => ?_
  rw [A.kind_token]
  split
  next hkind => exact (advance (by simp [hkind])).bind fun _ => finish.mono (by omega)
  next hkind =>
    split
    · exact .facing (function hg hk)
    · exact (advance (by simp [hkind])).bind fun _ => finish.mono (by omega)
    · exact literal (by simp [hkind])
    · exact literal (by simp [hkind])
    · exact literal (by simp [hkind])
    · exact fail fun _ => trivial
    · exact fail fun _ => trivial
    · exact fail fun _ => trivial
    · exact unexpected
  next hkind => exact literal (by simp [hkind])
  next hkind => exact literal (by simp [hkind])
  next hkind => exact literal (by simp [hkind])
  next hkind =>
    refine (advance (by simp [hkind])).bind fun _ => (hg.expression (by omega)).bind fun _ => ?_
    exact expectPunct.bind fun _ => pure.mono (by omega)
  · exact .facing (array hg hk)
  · exact .facing (object hg hk)
  · exact fail fun _ => trivial
  · exact unexpected

omit hk in
theorem computedKey (h : k < n) : A.Passes k b A.tree (computedKey g) (computedKey g') 2 3 :=
  (hg.expression h).bind fun _ => expectPunct.bind fun _ => pure.mono (by omega)

theorem constructTail {start : Nat} {callee : Tree} :
    A.Passes k b A.tree (constructTail g start callee)
      (constructTail g' (A.start start) (A.tree callee)) 0 0 := by
  refine eatPunct_ite ?_ (eatPunct_ite ?_ (pure.mono (by omega)))
  · refine propertyName.bind fun _ => finish.bind fun _ => ?_
    exact (hg.constructTail (by omega)).mono (by omega)
  · refine (computedKey hg (by omega)).bind fun _ => finish.bind fun _ => ?_
    exact (hg.constructTail (by omega)).mono (by omega)

theorem construct : A.Passes k b A.tree (construct g) (construct g') 1 1 := by
  refine start.bind fun start => expectWord.bind fun _ => atPunct.bind fun _ => ?_
  refine .ite (fail fun _ => trivial) (atWord.bind fun _ => ?_)
  extract_lets rest rest'
  have hrest (callee : Tree) : A.Judges (Left (k - 1 - 1) (b - 2 - 1)) A.tree (rest callee)
      (rest' (A.tree callee)) fun _ => Left (k - 1) (b - 1) := by
    refine (constructTail hg (by omega)).bind fun _ => atPunct.bind fun _ => .ite ?_ ?_
    · exact (argumentList hg (by omega)).bind fun _ => finish.mono (by omega)
    · exact (pure (f := List.map A.tree)).bind fun _ => finish.mono (by omega)
  exact .ite ((hg.construct (by omega)).bind hrest) ((primary hg (by omega)).bind hrest)

theorem accessTail {start : Nat} {owner : Tree} :
    A.Passes k b A.tree (accessTail g start owner)
      (accessTail g' (A.start start) (A.tree owner)) 0 0 := by
  refine current.bind fun t => ?_
  rw [A.kind_token]
  split
  next hkind =>
    refine (advance (by simp [hkind])).bind fun _ => propertyName.bind fun _ => ?_
    exact finish.bind fun _ => (hg.accessTail (by omega)).mono (by omega)
  next hkind =>
    refine (advance (by simp [hkind])).bind fun _ => atPunct.bind fun _ => .ite ?_ ?_
    · refine (argumentList hg (by omega)).bind fun _ => finish.bind fun _ => ?_
      exact (hg.accessTail (by omega)).mono (by omega)
    · refine eatPunct_ite ?_ ?_
      · refine (computedKey hg (by omega)).bind fun _ => finish.bind fun _ => ?_
        exact (hg.accessTail (by omega)).mono (by omega)
      · refine propertyName.bind fun _ => finish.bind fun _ => ?_
        exact (hg.accessTail (by omega)).mono (by omega)
  next hkind =>
    refine (advance (by simp [hkind])).bind fun _ => (computedKey hg (by omega)).bind fun _ => ?_
    exact finish.bind fun _ => (hg.accessTail (by omega)).mono (by omega)
  · refine .facing ((argumentList hg hk).bind fun _ => finish.bind fun _ => ?_)
    exact (hg.accessTail (by omega)).mono (by omega)
  · exact .facing (pure.mono (by omega))

theorem access : A.Passes k b A.tree (access g) (access g') 1 1 := by
  refine start.bind fun _ => atWord.bind fun _ => .ite ?_ ?_
  · exact (construct hg hk).bind fun _ => (accessTail hg (by omega)).mono (by omega)
  · exact (primary hg hk).bind fun _ => (accessTail hg (by omega)).mono (by omega)

theorem unary : A.Passes k b A.tree (unary g) (unary g') 1 1 := by
  refine .nested (start.bind fun _ => current.bind fun t => ?_)
  rw [A.kind_token]
  split
  next hop =>
    refine (advance (ne_end_of_eq_some hop rfl)).bind fun _ => ?_
    exact (hg.unary (by omega)).bind fun _ => finish.mono (by omega)
  next hop =>
    refine (advance (ne_end_of_eq_some hop rfl)).bind fun _ => ?_
    exact (hg.unary (by omega)).bind fun _ => finish.mono (by omega)
  · refine .facing ((access hg hk).bind fun _ => current.bind fun t => ?_)
    rw [A.kind_token,A.newlineBefore_token]
    split
    next hop =>
      refine .ite (.facing pure) ?_
      exact (advance (ne_end_of_eq_some hop rfl)).bind fun _ => finish.mono (by omega)
    · exact .facing pure

theorem binaryTail {start least : Nat} {inHead : Bool} {left : Tree} :
    A.Passes k b A.tree (binaryTail g start least inHead left)
      (binaryTail g' (A.start start) least inHead (A.tree left)) 0 0 := by
  refine current.bind fun t => ?_
  rw [A.kind_token]
  split
  next hop =>
    refine .ite (.facing (pure.mono (by omega))) ?_
    refine (advance (ne_end_of_eq_some hop rfl)).bind fun _ => ?_
    refine (hg.binary (by omega)).bind fun _ => finish.bind fun _ => ?_
    exact (hg.binaryTail (by omega)).mono (by omega)
  · exact .facing (pure.mono (by omega))

theorem binary {least : Nat} {inHead : Bool} :
    A.Passes k b A.tree (binary g least inHead) (binary g' least inHead) 1 1 := by
  refine start.bind fun _ => (unary hg hk).bind fun _ => ?_
  exact (binaryTail hg (by omega)).mono (by omega)

theorem conditional {inHead : Bool} :
    A.Passes k b A.tree (conditional g inHead) (conditional g' inHead) 1 1 := by
  refine start.bind fun _ => (binary hg hk).bind fun _ => eatPunct_ite ?_ pure
  refine (hg.assignment (by omega)).bind fun _ => expectPunct.bind fun _ => ?_
  exact (hg.assignment (by omega)).bind fun _ => finish.mono (by omega)

theorem sequenceTail {inHead : Bool} :
    A.Passes k b (List.map A.tree) (sequenceTail g inHead) (sequenceTail g' inHead) 0 0 := by
  refine eatPunct_ite ?_ (pure.mono (by omega))
  refine (hg.assignment (by omega)).bind fun _ => (hg.sequenceTail (by omega)).bind fun _ => ?_
  exact pure.mono (by omega)

/-- A comma and what follows it pay for the node of a sequence. -/
theorem sequenceTail_facing {inHead : Bool} :
    A.PassesAt (.punct .comma) k b (List.map A.tree) (Grammar.sequenceTail g inHead)
      (Grammar.sequenceTail g' inHead) 2 3 := by
  refine eatPunct_facing ?_
  refine (hg.assignment (by omega)).bind fun _ => (hg.sequenceTail (by omega)).bind fun _ => ?_
  exact pure.mono (by omega)

section
variable (hl : g.Retraced A)
include hl

/-- What is assigned to is read by the time it is refused. -/
theorem assignment {inHead : Bool} :
    A.Passes k b A.tree (assignment g inHead) (assignment g' inHead) 1 1 := by
  refine .nested (get.bind fun c => .facing ?_)
  rw [A.startsArrow_cursor]
  refine .ite (arrowFunction hg hk) (start.bind fun _ => ?_)
  refine (A.judges_leaves (conditional hg hk) hl.conditional).bind fun target => current.bind fun t => ?_
  rw [A.kind_token]
  split
  next hop =>
    rw [A.isTarget_tree,A.start_tree]
    refine .ite ?_ ?_
    · refine .of ((advance (ne_end_of_eq_some hop rfl)).bind fun _ => ?_) fun c hc => ⟨hc.1,hc.2.1⟩
      exact (hg.assignment (by omega)).bind fun _ => finish.mono (by omega)
    · exact A.judges_failAt (fun _ => trivial) fun c hc => hc.2.2 target (by simp)
  · exact .facing (A.judges_pure fun _ hc => hc.1)

theorem expression {inHead : Bool} :
    A.Passes k b A.tree (expression g inHead) (expression g' inHead) 1 1 := by
  refine start.bind fun _ => (assignment hg hk hl).bind fun _ => atKind_ite ?_ pure
  exact (sequenceTail_facing hg (by omega)).bind fun _ => finish.mono (by omega)

theorem spreadOrAssignment :
    A.Passes k b A.tree (spreadOrAssignment g) (spreadOrAssignment g') 1 1 := by
  refine start.bind fun _ => eatPunct_ite ?_ (assignment hg hk hl)
  exact (hg.assignment (by omega)).bind fun _ => finish.mono (by omega)

theorem arguments : A.Passes k b (List.map A.tree) (arguments g) (arguments g') 0 0 := by
  refine atPunct.bind fun _ => .ite (pure.mono (by omega)) ?_
  refine (spreadOrAssignment hg hk hl).bind fun _ => eatPunct_ite ?_ (pure.mono (by omega))
  exact (hg.arguments (by omega)).bind fun _ => pure.mono (by omega)

theorem elements :
    A.Passes k b (List.map (Option.map A.tree)) (elements g) (elements g') 0 0 := by
  refine atPunct.bind fun _ => .ite (pure.mono (by omega)) (eatPunct_ite ?_ ?_)
  · exact (hg.elements (by omega)).bind fun _ => pure.mono (by omega)
  · refine (spreadOrAssignment hg hk hl).bind fun _ => ?_
    refine atPunct.bind fun _ => .ite (pure.mono (by omega)) ?_
    refine expectPunct.bind fun _ => (hg.elements (by omega)).bind fun _ => ?_
    exact pure.mono (by omega)

end
end Discipline.Judges
end ScriptLint.Grammar
