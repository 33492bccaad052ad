import Mathlib
import ScriptLint.Proofs.RoundTrip

/-! How long the chains of a tree can be along which a parser calls itself. The unary operators and
assignments of a chain are limited in number by the levels of nesting, and more of them are refused.
Its `new`s and powers are not: there are files with chains of any number of either. -/
namespace ScriptLint

/-- A chain of nodes of a tree. -/
structure Tree.Chain (root : Tree) (chain : List Tree) : Prop where
  linked : Linked chain
  mem : ∀ t ∈ chain, t ∈ root.preorder

namespace Tree
variable {root t u v : Tree} {chain : List Tree}

def isConstruct (t : Tree) : Bool :=
  match t.shape with
  | .construct .. => true
  | _ => false

def isPower (t : Tree) : Bool :=
  match t.shape with
  | .binary .pow .. => true
  | _ => false

theorem mem_preorder_self (t : Tree) : t ∈ t.preorder := mem_preorder.mpr (.inl rfl)

theorem mem_preorder_trans (hu : u ∈ t.preorder) (ht : t ∈ root.preorder) : u ∈ root.preorder := by
  induction root using below_induction with
  | step root ih =>
    rcases mem_preorder.mp ht with rfl | ⟨c,hc,ht⟩
    · exact hu
    · exact mem_preorder.mpr (.inr ⟨c,hc,ih c hc ht⟩)

theorem mem_preorder_next (h : t.next? = some u) : u ∈ t.preorder :=
  mem_preorder.mpr (.inr ⟨u,mem_children_of_next h,mem_preorder_self u⟩)

/-- A chain stays below its first node. -/
theorem chain_of_linked (h : Linked (t :: chain)) (ht : t ∈ root.preorder) :
    root.Chain (t :: chain) := by
  refine ⟨h,?_⟩
  induction chain generalizing t with
  | nil => simpa using ht
  | cons u chain ih =>
    obtain ⟨hnext,hchain⟩ := List.isChain_cons_cons.mp h
    have hu := mem_preorder_trans (mem_preorder_next hnext) ht
    exact List.forall_mem_cons.mpr ⟨ht,ih hchain hu⟩

/-- A chain of `k` links that are all of one kind begins at the node. -/
def Descends (link : Tree → Bool) (k : Nat) (t : Tree) : Prop :=
  ∃ chain, Linked (t :: chain) ∧ chain.length = k ∧ ∀ u ∈ (t :: chain).dropLast, link u

theorem descends_zero (link : Tree → Bool) (t : Tree) : t.Descends link 0 :=
  ⟨[],.singleton t,rfl,by simp⟩

theorem Descends.cons {link : Tree → Bool} {k : Nat} (h : u.Descends link k) (ht : link t)
    (hnext : t.next? = some u) : t.Descends link (k + 1) := by
  obtain ⟨chain,hlinked,rfl,hlink⟩ := h
  refine ⟨u :: chain,.cons_cons hnext hlinked,rfl,?_⟩
  rw [List.dropLast_cons_of_ne_nil (List.cons_ne_nil u chain)]
  exact List.forall_mem_cons.mpr ⟨ht,hlink⟩

/-- The strain of a node is bounded where the operators below it all leave room for their
operands. -/
theorem strain_le {n : Nat} (t : Tree)
    (h : ∀ u ∈ t.preorder, u.isCapped → ∀ v, u.next? = some v → v.strain < n) : t.strain ≤ n := by
  induction t using below_induction with
  | step t ih =>
    cases hnext : t.next? with
    | none =>
      rw [strain_of_none hnext]
      exact Nat.zero_le _
    | some u =>
      rw [strain_of_next hnext]
      cases hcapped : t.isCapped with
      | false =>
        rw [Bool.toNat_false,Nat.zero_add]
        exact ih u (mem_children_of_next hnext) fun v hv =>
          h v (mem_preorder_trans hv (mem_preorder_next hnext))
      | true =>
        rw [Bool.toNat_true,Nat.add_comm]
        exact h t (mem_preorder_self t) hcapped u hnext

end Tree

namespace Grammar

/-- The operators of all that is read leave room for their operands. -/
theorem Reads.strain_lt {c d : Cursor} {tokens : List Token} {trees : List Tree}
    (h : Reads c tokens trees d) (hc : c.WellFormed) :
    ∀ t ∈ trees, ∀ u ∈ t.preorder, u.isCapped → ∀ v, u.next? = some v → v.strain < maxNesting := by
  refine h.forall_nodes
    (P := fun _ u => u.isCapped → ∀ v, u.next? = some v → v.strain < maxNesting) ?_ ?_ ?_ hc
  · intro _ _ _ hu _
    exact hu
  · intro token i shape hl hcapped v hv
    have hchild := Tree.mem_children_of_next hv
    rw [Tree.children,Tree.shape,hl.children] at hchild
    contradiction
  · intro tokens i span shape hs _ hcapped v hv
    cases shape with
    | unary | assignment =>
      cases hv
      exact hs
    | _ => contradiction

end Grammar

theorem parseText_strain_le {cs : List Char} {root : Tree} (h : parseText cs = .ok ⟨some root⟩) :
    ∀ t ∈ root.preorder, t.strain ≤ Grammar.maxNesting := by
  obtain ⟨tokens,body,c,d,_,_,_,hb,_,⟨⟩⟩ := parseText_built h
  intro t ht
  rcases Tree.mem_preorder.mp ht with rfl | ⟨u,hu,ht⟩
  · rw [Tree.strain_of_none rfl]
    exact Nat.zero_le _
  · exact t.strain_le fun v hv => hb.reads.strain_lt hb.start u hu v (Tree.mem_preorder_trans hv ht)

/-- `this` after some `new`s. -/
def constructs : Nat → Words
  | 0 => [.reserved .kwThis]
  | k + 1 => .reserved .kwNew :: constructs k

/-- `this` raised to the power of `this` some times. -/
def powers : Nat → Words
  | 0 => [.reserved .kwThis]
  | k + 1 => .reserved .kwThis :: .punct .pow :: powers k

/-- `this` after some `~`s. -/
def complements : Nat → Words
  | 0 => [.reserved .kwThis]
  | k + 1 => .punct .tilde :: complements k

namespace Grammar
variable {E : Halt → Prop} {g : Productions} {s : Surroundings} {c : Cursor} {n k : Nat}
  {ws : Words} {P : Tree → Prop} {Q : Tree → Cursor → Prop}

theorem Cursor.Faces.kind_of_head {w : TokenKind} (h : c.Faces n ws) (hw : ws.head? = some w) :
    c.current.kind = w := by
  obtain ⟨ws,rfl⟩ := List.head?_eq_some_iff.mp hw
  exact h.kind

/-- Nothing goes on with an expression at the end of the input. -/
theorem Cursor.Faces.le_grip {m : Nat} (h : c.Faces n []) (hm : m ≤ 6) :
    m ≤ grip false c.current.kind := by
  rw [h.kind_nil]
  exact hm

theorem primary_this (hc : c.Faces (n + 1) (.reserved .kwThis :: ws)) :
    Ends E (primary g) s c fun _ d => d.Faces n ws := by
  simp only [primary,ends_bind,ends_start,ends_current,hc.kind,ends_advance,ends_finish]
  exact hc.step.finished _

theorem constructTail_nil {start : Nat} {callee : Tree} (hc : c.Faces n []) (hQ : Q callee c) :
    Ends E (constructTail g start callee) s c Q := by
  simp only [constructTail,ends_bind,ends_eatPunct,hc.kind_nil,reduceCtorEq,if_false]
  exact hQ

/-- A `new` at the end of the input makes the chain of its callee longer. -/
theorem construct_ends (hc : c.Faces (n + 1) (.reserved .kwNew :: ws))
    (hdot : c.advance.current.kind ≠ .punct .dot)
    (h : Ends E (if c.advance.current.kind = .reserved .kwNew then g.construct else primary g) s
      c.advance fun u d => u.Descends Tree.isConstruct k ∧ d.Faces n []) :
    Ends E (construct g) s c fun u d => u.Descends Tree.isConstruct (k + 1) ∧ d.Faces n [] := by
  simp only [construct,ends_bind,ends_start,ends_expectWord,hc.kind,if_true,ends_atPunct]
  rw [ends_ite,if_neg (by simpa using hdot)]
  simp only [ends_bind,ends_atWord,beq_iff_eq,ends_ite] at h ⊢
  split at h
  all_goals
    next hnew =>
    simp only [hnew,if_true,if_false]
    apply h.mono
    rintro u d ⟨hu,hd⟩
    apply constructTail_nil hd
    simp only [ends_atPunct,hd.kind_nil]
    exact ⟨hu.cons rfl rfl,hd.finished _⟩

/-- Every `new` calls for the next one directly. -/
theorem construct_descends (hc : c.Faces (n + 1) (constructs (k + 1))) :
    Ends E (construct (productions n)) s c fun u d =>
      u.Descends Tree.isConstruct (k + 1) ∧ d.Faces n [] := by
  induction k generalizing n c s with
  | zero =>
    have hthis : c.advance.Faces n [.reserved .kwThis] := hc.step
    refine construct_ends hc (by simp [hthis.kind]) ?_
    rw [if_neg (by simp [hthis.kind])]
    apply (primary_this hthis.up).mono
    intro u d hd
    exact ⟨u.descends_zero _,hd⟩
  | succ k ih =>
    have hnew : c.advance.Faces n (constructs (k + 1)) := hc.step
    refine construct_ends hc (by simp [hnew.kind]) ?_
    rw [if_pos hnew.kind]
    cases n with
    | zero => exact absurd hnew.bound (Nat.not_lt_zero _)
    | succ n =>
      apply (ih hnew).mono
      rintro u d ⟨hu,hd⟩
      exact ⟨hu,hd.up⟩

theorem unary_this (hs : s.nesting < maxNesting) (hws : ws = [] ∨ ws.head? = some (.punct .pow))
    (hc : c.Faces (n + 1) (.reserved .kwThis :: ws)) :
    Ends E (unary g) s c fun _ d => d.Faces n ws := by
  refine unary_ends hs (by rw [hc.kind]; rfl) (by rw [hc.kind]; rfl) fun _ => ?_
  simp only [access,ends_bind,ends_start,ends_atWord,hc.kind]
  rw [if_neg (by simp),ends_bind]
  apply (primary_this hc).mono
  intro u d hd
  have hgrip : 2 ≤ grip false d.current.kind := by
    rcases hws with rfl | hws
    · exact hd.le_grip (by decide)
    · rw [hd.kind_of_head hws]
      decide
  exact accessTail_ends (Nat.le_of_succ_le hgrip) ⟨updateOperator_eq_none hgrip,hd⟩

theorem binary_constructs (hs : s.nesting < maxNesting) (hc : c.Faces (n + 1) (constructs k)) :
    Ends E (binary (productions n) 1 false) s c fun u d =>
      u.Descends Tree.isConstruct k ∧ d.Faces n [] := by
  simp only [binary,ends_bind,ends_start]
  cases k with
  | zero =>
    apply (unary_this hs (.inl rfl) hc).mono
    intro u d hd
    exact binaryTail_ends (hd.le_grip (by decide)) ⟨u.descends_zero _,hd⟩
  | succ k =>
    refine unary_ends hs (by rw [hc.kind]; rfl) (by rw [hc.kind]; rfl) fun _ => ?_
    simp only [access,ends_bind,ends_start,ends_atWord,hc.kind,BEq.rfl,if_true]
    apply (construct_descends hc).mono
    rintro u d ⟨hu,hd⟩
    apply accessTail_ends (hd.le_grip (by decide))
    refine ⟨updateOperator_eq_none (hd.le_grip (by decide)),?_⟩
    exact binaryTail_ends (hd.le_grip (by decide)) ⟨hu,hd⟩

/-- Every power calls for the one on its right directly. -/
theorem binary_powers {least : Nat} (hs : s.nesting < maxNesting)
    (hleast : least ≤ BinaryOperator.pow.precedence) (hc : c.Faces (n + 1) (powers k)) :
    Ends E (binary (productions n) least false) s c fun u d =>
      u.Descends Tree.isPower k ∧ d.Faces n [] := by
  induction k generalizing n c least with
  | zero =>
    simp only [binary,ends_bind,ends_start]
    apply (unary_this hs (.inl rfl) hc).mono
    intro u d hd
    exact binaryTail_ends (hd.le_grip (by decide)) ⟨u.descends_zero _,hd⟩
  | succ k ih =>
    simp only [binary,ends_bind,ends_start]
    apply (unary_this hs (.inr rfl) hc).mono
    intro left d hd
    cases n with
    | zero => exact absurd hd.bound (Nat.not_lt_zero _)
    | succ n =>
      have hkind : binaryOperator? false d.current.kind = some .pow := by
        rw [hd.kind]
        rfl
      simp only [binaryTail,ends_bind,ends_current,hkind]
      rw [ends_ite,if_neg (Nat.not_lt.mpr hleast)]
      simp only [ends_bind,ends_advance,ends_finish]
      apply (ih (Nat.le_refl _) hd.advance).mono
      rintro right e ⟨hright,he⟩
      exact binaryTail_ends (he.le_grip (by decide)) ⟨hright.cons rfl rfl,(he.finished _).up⟩

/-- Every unary operator takes a level, until there are none left. -/
theorem unary_complements (hs : maxNesting ≤ s.nesting + k) (hc : c.Faces (n + 1) (complements k)) :
    Ends TooDeep (unary (productions n)) s c fun _ _ => False := by
  induction k generalizing n s c with
  | zero =>
    rw [unary,ends_nested,if_neg (Nat.not_lt.mpr (by simpa using hs))]
    rfl
  | succ k ih =>
    have hnext : c.advance.Faces n (complements k) := hc.step
    have hunary : unaryOperator? c.current.kind = some .bitNot := by
      rw [hc.kind]
      rfl
    cases n with
    | zero => exact absurd hnext.bound (Nat.not_lt_zero _)
    | succ n =>
      apply nested_ends
      simp only [ends_bind,ends_start,ends_current,hunary,ends_advance]
      apply (ih (by dsimp only; omega) hnext).mono
      intro _ _ h
      exact h.elim

theorem binary_complements {least : Nat} (hs : maxNesting ≤ s.nesting + k)
    (hc : c.Faces (n + 1) (complements k)) :
    Ends TooDeep (binary (productions n) least false) s c fun _ d => False ∧ d.Faces n [] := by
  simp only [binary,ends_bind,ends_start]
  apply (unary_complements hs hc).mono
  intro _ _ h
  exact h.elim

theorem expression_of_binary (hs : s.nesting + 1 < maxNesting) (harrow : c.startsArrow = false)
    (h : Ends E (binary g 1 false) { s with nesting := s.nesting + 1 } c fun u d =>
      P u ∧ d.Faces n []) :
    Ends E (expression g false) s c fun u d => P u ∧ d.Faces n [] := by
  simp only [expression,ends_bind,ends_start]
  rw [assignment,ends_nested,if_pos (Nat.lt_of_succ_lt hs)]
  simp only [ends_bind,ends_get,harrow,ends_ite,ends_start,conditional]
  apply h.mono
  rintro u d ⟨hu,hd⟩
  have hnone : assignmentOperator? .endOfInput = none := rfl
  simp only [ends_eatPunct,ends_current,ends_atPunct,ends_pure,hd.kind_nil,hnone,reduceCtorEq,
    if_false]
  exact ⟨hu,hd⟩

/-- The tokens that the expressions here begin with. -/
def Leading (w : TokenKind) : Prop :=
  w = .reserved .kwNew ∨ w = .reserved .kwThis ∨ w = .punct .tilde

theorem statement_of_binary (hkind : Leading c.current.kind)
    (h : Ends E (binary g 1 false) ⟨2,false⟩ c fun u d => P u ∧ d.Faces n []) :
    Ends E (statement g) ⟨0,false⟩ c fun u d => (∃ t ∈ u.preorder, P t) ∧ d.Faces n [] := by
  have harrow : c.startsArrow = false := by
    apply startsArrow_eq_false <;> rcases hkind with hk | hk | hk <;> simp [hk]
  have hexpression : Ends E (expression g false) ⟨1,false⟩ c fun u d => P u ∧ d.Faces n [] :=
    expression_of_binary (by decide) harrow h
  have hstatement : Ends E (expressionStatement g) ⟨1,false⟩ c fun u d =>
      (∃ t ∈ u.preorder, P t) ∧ d.Faces n [] := by
    simp only [expressionStatement,ends_bind,ends_start]
    apply hexpression.mono
    rintro u d ⟨hu,hd⟩
    simp only [endStatement,ends_bind,ends_eatPunct,ends_current,hd.kind_nil,ends_ite]
    exact ⟨⟨u,Tree.mem_preorder.mpr (.inr ⟨u,.head _,u.mem_preorder_self⟩),hu⟩,hd.finished _⟩
  rw [statement,ends_nested,if_pos (by decide),ends_bind,ends_get]
  rcases hkind with hk | hk | hk
  all_goals
    rw [hk]
    exact hstatement

/-- A program of one expression. -/
theorem program_of_binary (hkind : Leading c.current.kind)
    (h : Ends E (binary (productions n) 1 false) ⟨2,false⟩ c fun u d => P u ∧ d.Faces n []) :
    Ends E (program (productions (n + 1))) ⟨0,false⟩ c fun root _ => ∃ t ∈ root.preorder, P t := by
  have hstart : c.current.kind ≠ .endOfInput := by
    rcases hkind with hk | hk | hk <;> simp [hk]
  simp only [program,productions,Productions.step,programItems,ends_bind,ends_current]
  apply (statement_of_binary hkind h).mono
  rintro u d ⟨⟨t,ht,hP⟩,hd⟩
  cases n with
  | zero => exact absurd hd.bound (Nat.lt_irrefl _)
  | succ n =>
    simp only [productions,Productions.step,programItems,ends_bind,ends_current,hd.kind_nil]
    exact ⟨t,Tree.mem_preorder.mpr (.inr ⟨u,.head _,ht⟩),hP⟩

end Grammar

theorem parseSource_of_binary {ws : Words} {w : TokenKind} {E : Grammar.Halt → Prop}
    {P : Tree → Prop} (hws : ∀ k ∈ ws, Token.isLexical k) (hw : ws.head? = some w)
    (hkind : Grammar.Leading w) (h : ∀ {c : Grammar.Cursor}, c.Faces (ws.length + 1) ws →
      Grammar.Ends E (Grammar.binary (Grammar.productions ws.length) 1 false)
        ⟨2,false⟩ c fun u d => P u ∧ d.Faces ws.length []) :
    (∃ root, parseSource (String.ofList (spell ws)).toUTF8 = .ok ⟨some root⟩ ∧
      ∃ t ∈ root.preorder, P t) ∨
    ∃ halt, parseSource (String.ofList (spell ws)).toUTF8 = .error halt.error ∧ E halt := by
  rw [parseSource_toUTF8]
  refine parseText_of_ends hws fun hc => Grammar.program_of_binary ?_ (h hc)
  rwa [hc.kind_of_head hw]

/-- A program of one expression that begins a chain of `k` links of one kind. -/
theorem parseSource_of_descends {ws : Words} {w : TokenKind} {k : Nat} {link : Tree → Bool}
    (hws : ∀ k ∈ ws, Token.isLexical k) (hw : ws.head? = some w) (hkind : Grammar.Leading w)
    (h : ∀ {c : Grammar.Cursor}, c.Faces (ws.length + 1) ws →
      Grammar.Ends (fun _ => False) (Grammar.binary (Grammar.productions ws.length) 1 false)
        ⟨2,false⟩ c fun u d => u.Descends link k ∧ d.Faces ws.length []) :
    ∃ root chain, parseSource (String.ofList (spell ws)).toUTF8 = .ok ⟨some root⟩ ∧
      root.Chain chain ∧ chain.dropLast.length = k ∧ ∀ t ∈ chain.dropLast, link t := by
  rcases parseSource_of_binary hws hw hkind h with
    ⟨root,hroot,t,ht,chain,hlinked,rfl,hlink⟩ | ⟨_,_,hfalse⟩
  · refine ⟨root,t :: chain,hroot,Tree.chain_of_linked hlinked ht,?_,hlink⟩
    rw [List.length_dropLast,List.length_cons,Nat.add_sub_cancel]
  · exact hfalse.elim

theorem parseSource_constructs (k : Nat) :
    ∃ root chain, parseSource (String.ofList (spell (constructs k))).toUTF8 = .ok ⟨some root⟩ ∧
      root.Chain chain ∧ chain.dropLast.length = k ∧ ∀ t ∈ chain.dropLast, t.isConstruct := by
  have hws : ∀ w ∈ constructs k, Token.isLexical w := by
    induction k with
    | zero => decide
    | succ k ih => exact List.forall_mem_cons.mpr ⟨by decide,ih⟩
  cases k with
  | zero =>
    exact parseSource_of_descends hws rfl (.inr (.inl rfl)) (Grammar.binary_constructs (by decide))
  | succ k =>
    exact parseSource_of_descends hws rfl (.inl rfl) (Grammar.binary_constructs (by decide))

theorem parseSource_powers (k : Nat) :
    ∃ root chain, parseSource (String.ofList (spell (powers k))).toUTF8 = .ok ⟨some root⟩ ∧
      root.Chain chain ∧ chain.dropLast.length = k ∧ ∀ t ∈ chain.dropLast, t.isPower := by
  have hws : ∀ w ∈ powers k, Token.isLexical w := by
    induction k with
    | zero => decide
    | succ k ih =>
      exact List.forall_mem_cons.mpr ⟨by decide,List.forall_mem_cons.mpr ⟨by decide,ih⟩⟩
  have hw : (powers k).head? = some (.reserved .kwThis) := by cases k <;> rfl
  exact parseSource_of_descends hws hw (.inr (.inl rfl))
    (Grammar.binary_powers (by decide) (by decide))

theorem parseSource_complements {k : Nat} (hk : Grammar.maxNesting ≤ k + 2) :
    ∃ e, parseSource (String.ofList (spell (complements k))).toUTF8 = .error e ∧
      e.fault.message = "nesting too deep" := by
  have hws : ∀ w ∈ complements k, Token.isLexical w := by
    clear hk
    induction k with
    | zero => decide
    | succ k ih => exact List.forall_mem_cons.mpr ⟨by decide,ih⟩
  have hw : ∃ w, (complements k).head? = some w ∧ Grammar.Leading w := by
    cases k with
    | zero => exact ⟨_,rfl,.inr (.inl rfl)⟩
    | succ k => exact ⟨_,rfl,.inr (.inr rfl)⟩
  obtain ⟨w,hw,hkind⟩ := hw
  rcases parseSource_of_binary hws hw hkind (Grammar.binary_complements (by dsimp only; omega)) with
    ⟨_,_,_,_,hfalse⟩ | ⟨halt,he,hdeep⟩
  · exact hfalse.elim
  · exact ⟨halt.error,he,by rw [hdeep]; rfl⟩

/-- A chain of a parsed file leads on from no more unary operators and assignments than there are
levels of nesting; unary operators that do not fit are refused. From `new`s and from powers a chain
leads on any number of times. -/
theorem parseSource_chain (k : Nat) :
    (∀ {content : ByteArray} {root : Tree} {chain : List Tree},
      parseSource content = .ok ⟨some root⟩ → root.Chain chain →
        chain.dropLast.countP Tree.isCapped ≤ Grammar.maxNesting) ∧
    (Grammar.maxNesting ≤ k + 2 →
      ∃ e, parseSource (String.ofList (spell (complements k))).toUTF8 = .error e ∧
        e.fault.message = "nesting too deep") ∧
    (∃ root chain, parseSource (String.ofList (spell (constructs k))).toUTF8 = .ok ⟨some root⟩ ∧
      root.Chain chain ∧ chain.dropLast.length = k ∧ ∀ t ∈ chain.dropLast, t.isConstruct) ∧
    ∃ root chain, parseSource (String.ofList (spell (powers k))).toUTF8 = .ok ⟨some root⟩ ∧
      root.Chain chain ∧ chain.dropLast.length = k ∧ ∀ t ∈ chain.dropLast, t.isPower := by
  refine ⟨?_,parseSource_complements,parseSource_constructs k,parseSource_powers k⟩
  intro content root chain h hchain
  obtain ⟨cs,_,htext⟩ := parseSource_eq_ok h
  cases chain with
  | nil => exact Nat.zero_le _
  | cons t chain =>
    calc (t :: chain).dropLast.countP Tree.isCapped
      _ ≤ t.strain := Tree.countP_le_strain hchain.linked
      _ ≤ Grammar.maxNesting := parseText_strain_le htext t (hchain.mem t (.head _))

namespace Sample

def operand : Tree := .node 1 ⟨3,4⟩ (.identifier "b")

def complement : Tree := .node 2 ⟨2,4⟩ (.unary .bitNot operand)

def assignment : Tree :=
  .node 3 ⟨0,4⟩ (.assignment .assign (.node 0 ⟨0,1⟩ (.identifier "a")) complement)

def statement : Tree := .node 4 ⟨0,4⟩ (.expressionStatement assignment)

def assigning : Tree := .node 5 ⟨0,4⟩ (.program [statement])

theorem assigning_chain : assigning.Chain [assignment,complement,operand] := by
  have hstatement : assignment ∈ statement.preorder :=
    Tree.mem_preorder.mpr (.inr ⟨assignment,.head _,assignment.mem_preorder_self⟩)
  exact Tree.chain_of_linked (.cons_cons rfl (.cons_cons rfl (.singleton operand)))
    (Tree.mem_preorder.mpr (.inr ⟨statement,.head _,hstatement⟩))

end Sample

theorem parseSource_chain_sample :
    (parseSource "a=~b".toUTF8 = .ok ⟨some Sample.assigning⟩ ∧
      [Sample.assignment,Sample.complement].countP Tree.isCapped = 2 ∧ 2 ≤ Grammar.maxNesting) ∧
    ∃ e, parseSource (String.ofList (spell (complements 126))).toUTF8 = .error e ∧
      e.fault.message = "nesting too deep" := by
  have hparse : parseSource "a=~b".toUTF8 = .ok ⟨some Sample.assigning⟩ := by cbv
  obtain ⟨hbound,hrefused,_⟩ := parseSource_chain 126
  exact ⟨⟨hparse,rfl,hbound hparse Sample.assigning_chain⟩,hrefused (by decide)⟩

/-- A file with a chain of more links than there are levels of nesting. -/
theorem parseSource_chain_exceeds : ∃ root chain,
    parseSource (String.ofList (spell (constructs 129))).toUTF8 = .ok ⟨some root⟩ ∧
      root.Chain chain ∧ Grammar.maxNesting < chain.dropLast.length := by
  obtain ⟨root,chain,hroot,hchain,hlength,_⟩ := parseSource_constructs 129
  refine ⟨root,chain,hroot,hchain,?_⟩
  rw [hlength]
  decide

end ScriptLint
